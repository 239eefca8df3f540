import NdnCxx.Foundation.Bytes

/-!
# NDN-TLV numbers

The constants and number readers of `encoding/tlv.hpp`. A reader takes the bytes from `begin` up to
`end` and returns the number together with the bytes from the advanced `begin` on. A number of
`size_t` or `uint64_t` is a natural number; the readers cannot produce one outside its width.
-/

namespace NdnCxx

/-- The exception classes thrown by the modelled code. The classes before `regex` derive from
`tlv::Error`; the named ones among them are those that some handler catches on its own. -/
inductive ErrorClass
  | tlv
  | block
  | component
  | exclude
  | keyLocator
  | signature
  | signatureInfo
  | identityCertificate
  | regex
  | filesystem
  deriving DecidableEq, Repr

/-- A thrown exception with its `what()` text. -/
structure Error where
  kind : ErrorClass
  what : String
  deriving DecidableEq, Repr

/-- Whether a `catch (tlv::Error&)` handler catches the exception. -/
def Error.isTlvError (error : Error) : Bool := error.kind != .regex && error.kind != .filesystem

def ThrowsOnly {Value : Type} (allowed : Error → Prop) (result : Except Error Value) : Prop :=
  ∀ error, result = .error error → allowed error

variable {error : Error} {condition : Prop}

namespace ThrowsOnly

variable {Value Value' : Type} {allowed : Error → Prop}

theorem ok (value : Value) : ThrowsOnly allowed (.ok value) := by
  intro error hthrow
  cases hthrow

theorem throw (hallowed : allowed error) :
    ThrowsOnly allowed (.error error : Except Error Value) := by
  intro error' hthrow
  cases hthrow
  exact hallowed

variable {result : Except Error Value}

theorem bind {next : Value → Except Error Value'} (hresult : ThrowsOnly allowed result)
    (hnext : ∀ value, ThrowsOnly allowed (next value)) : ThrowsOnly allowed (result >>= next) := by
  cases result with
  | ok value => exact hnext value
  | error error =>
    intro error' hthrow
    cases hthrow
    exact hresult error rfl

theorem ite [Decidable condition] {first second : Except Error Value}
    (hfirst : ThrowsOnly allowed first) (hsecond : ThrowsOnly allowed second) :
    ThrowsOnly allowed (if condition then first else second) := by
  split_ifs
  · exact hfirst
  · exact hsecond

theorem mono {wider : Error → Prop} (hresult : ThrowsOnly allowed result)
    (hwider : ∀ error, allowed error → wider error) : ThrowsOnly wider result :=
  fun error hthrow ↦ hwider error (hresult error hthrow)

end ThrowsOnly

/-- Only exceptions that derive from `tlv::Error` are thrown. -/
def OnlyTlvErrors {Value : Type} (result : Except Error Value) : Prop :=
  ∀ error, result = .error error → error.isTlvError = true

namespace OnlyTlvErrors

variable {Value Value' : Type}

theorem ok (value : Value) : OnlyTlvErrors (.ok value) := ThrowsOnly.ok value

theorem throw (htlv : error.isTlvError = true) :
    OnlyTlvErrors (.error error : Except Error Value) :=
  ThrowsOnly.throw htlv

variable {result : Except Error Value}

theorem bind {next : Value → Except Error Value'} (hresult : OnlyTlvErrors result)
    (hnext : ∀ value, OnlyTlvErrors (next value)) : OnlyTlvErrors (result >>= next) :=
  ThrowsOnly.bind hresult hnext

theorem ite [Decidable condition] {first second : Except Error Value} (hfirst : OnlyTlvErrors first)
    (hsecond : OnlyTlvErrors second) : OnlyTlvErrors (if condition then first else second) :=
  ThrowsOnly.ite hfirst hsecond

theorem map (function : Value → Value') (hresult : OnlyTlvErrors result) :
    OnlyTlvErrors (result.map function) := by
  cases result with
  | ok value => exact ok _
  | error error => exact throw (hresult error rfl)

theorem mapM {function : Value → Except Error Value'}
    (hfunction : ∀ value, OnlyTlvErrors (function value))
    (values : List Value) : OnlyTlvErrors (values.mapM function) := by
  induction values with
  | nil => exact ok _
  | cons value values ih =>
    rw [List.mapM_cons]
    exact bind (hfunction value) fun _ ↦ bind ih fun _ ↦ ok _

/-- The class `tlv::Error` itself is one of them. -/
theorem ofTlv (hresult : ThrowsOnly (fun error ↦ error.kind = .tlv) result) :
    OnlyTlvErrors result :=
  hresult.mono fun error hkind ↦ by simp [Error.isTlvError, hkind]

end OnlyTlvErrors

/-- A computation returns if each of its steps does. -/
theorem bind_eq_ok_iff {Fault Value Value' : Type} {result : Except Fault Value}
    {next : Value → Except Fault Value'} {value' : Value'} :
    result >>= next = .ok value' ↔ ∃ value, result = .ok value ∧ next value = .ok value' := by
  cases result with
  | error fault => simp [bind, Except.bind]
  | ok value => simp [bind, Except.bind]

/-- A mapped computation returns if the computation does. -/
theorem map_eq_ok_iff {Fault Value Value' : Type} {result : Except Fault Value}
    {function : Value → Value'} {value' : Value'} :
    result.map function = .ok value' ↔ ∃ value, result = .ok value ∧ function value = value' := by
  cases result with
  | error fault => simp [Except.map]
  | ok value => simp [Except.map]

theorem toOption_eq_some_iff {Fault Value : Type} {result : Except Fault Value} {value : Value} :
    result.toOption = some value ↔ result = .ok value := by
  cases result with
  | error fault => simp [Except.toOption]
  | ok value => simp [Except.toOption]

namespace Tlv

def maxNdnPacketSize : ℕ := 8800

def interest : ℕ := 5
def data : ℕ := 6
def implicitSha256DigestComponent : ℕ := 1
def name : ℕ := 7
def nameComponent : ℕ := 8
def selectors : ℕ := 9
def nonce : ℕ := 10
def interestLifetime : ℕ := 12
def minSuffixComponents : ℕ := 13
def maxSuffixComponents : ℕ := 14
def exclude : ℕ := 16
def childSelector : ℕ := 17
def mustBeFresh : ℕ := 18
def any : ℕ := 19
def metaInfo : ℕ := 20
def content : ℕ := 21
def signatureInfo : ℕ := 22
def signatureValue : ℕ := 23
def contentType : ℕ := 24
def freshnessPeriod : ℕ := 25
def finalBlockId : ℕ := 26
def signatureType : ℕ := 27
def keyLocator : ℕ := 28
def keyDigest : ℕ := 29
def linkPreference : ℕ := 30
def linkDelegation : ℕ := 31
def selectedDelegation : ℕ := 32
def validityPeriod : ℕ := 253

/-- `tlv::ContentType_Blob` and `tlv::ContentType_Link` -/
def contentTypeBlob : ℕ := 0
def contentTypeLink : ℕ := 1

def digestSha256 : ℕ := 0
def signatureSha256WithRsa : ℕ := 1
def signatureSha256WithEcdsa : ℕ := 3

def sha256DigestSize : ℕ := 32

/-- Read a fixed-width big-endian field and advance past it. -/
def readFixed (width : ℕ) (bytes : Bytes) : Option (ℕ × Bytes) :=
  if bytes.length < width then none
  else some (Bytes.toNumber (bytes.take width), bytes.drop width)

/-- `tlv::readVarNumber`, the non-throwing form -/
def readVarNumber : Bytes → Option (ℕ × Bytes)
  | [] => none
  | firstOctet :: rest =>
      if firstOctet < 253 then some (firstOctet.toNat, rest)
      else if firstOctet = 253 then readFixed 2 rest
      else if firstOctet = 254 then readFixed 4 rest
      else readFixed 8 rest

/-- `tlv::readType`, the non-throwing form -/
def readType (bytes : Bytes) : Option (ℕ × Bytes) :=
  match readVarNumber bytes with
  | none => none
  | some (number, rest) => if number > 2 ^ 32 - 1 then none else some (number, rest)

def readVarNumberOrThrow (bytes : Bytes) : Except Error (ℕ × Bytes) :=
  if bytes.isEmpty then .error ⟨.tlv, "Empty buffer during TLV processing"⟩
  else
    match readVarNumber bytes with
    | none => .error ⟨.tlv, "Insufficient data during TLV processing"⟩
    | some result => .ok result

def readTypeOrThrow (bytes : Bytes) : Except Error (ℕ × Bytes) := do
  let (number, rest) ← readVarNumberOrThrow bytes
  if number > 2 ^ 32 - 1 then throw ⟨.tlv, "TLV type code exceeds allowed maximum"⟩
  else return (number, rest)

def sizeOfVarNumber (varNumber : ℕ) : ℕ :=
  if varNumber < 253 then 1
  else if varNumber ≤ 2 ^ 16 - 1 then 3
  else if varNumber ≤ 2 ^ 32 - 1 then 5
  else 9

/-- The bytes `tlv::writeVarNumber` puts into the stream. `Encoder::prependVarNumber` chooses among
the same four forms. -/
def writeVarNumber (varNumber : ℕ) : Bytes :=
  if varNumber < 253 then [UInt8.ofNat varNumber]
  else if varNumber ≤ 2 ^ 16 - 1 then 253 :: Bytes.ofNumber 2 varNumber
  else if varNumber ≤ 2 ^ 32 - 1 then 254 :: Bytes.ofNumber 4 varNumber
  else 255 :: Bytes.ofNumber 8 varNumber

/-- `tlv::readNonNegativeInteger` over a value of exactly `size` bytes -/
def readNonNegativeInteger (size : ℕ) (bytes : Bytes) : Except Error ℕ :=
  if size = 1 ∨ size = 2 ∨ size = 4 ∨ size = 8 then
    match readFixed size bytes with
    | none => .error ⟨.tlv, "Insufficient data during TLV processing"⟩
    | some (number, _) => .ok number
  else
    .error ⟨.tlv, "Invalid length for nonNegativeInteger (only 1, 2, 4, and 8 are allowed)"⟩

/-- The number of bytes `Encoder::prependNonNegativeInteger` writes. -/
def prependNonNegativeIntegerSize (number : ℕ) : ℕ :=
  if number ≤ 2 ^ 8 - 1 then 1
  else if number ≤ 2 ^ 16 - 1 then 2
  else if number ≤ 2 ^ 32 - 1 then 4
  else 8

/-- The bytes written by `Encoder::prependNonNegativeInteger`. -/
def prependNonNegativeInteger (number : ℕ) : Bytes :=
  Bytes.ofNumber (prependNonNegativeIntegerSize number) number

/-! ## Exceptions of the readers -/

theorem readVarNumberOrThrow_throwsTlv (bytes : Bytes) :
    ThrowsOnly (fun error ↦ error.kind = .tlv) (readVarNumberOrThrow bytes) := by
  unfold readVarNumberOrThrow
  refine ThrowsOnly.ite (.throw rfl) ?_
  cases readVarNumber bytes with
  | none => exact .throw rfl
  | some result => exact .ok result

theorem readTypeOrThrow_throwsTlv (bytes : Bytes) :
    ThrowsOnly (fun error ↦ error.kind = .tlv) (readTypeOrThrow bytes) :=
  .bind (readVarNumberOrThrow_throwsTlv bytes) fun _ ↦ .ite (.throw rfl) (.ok _)

theorem readNonNegativeInteger_throwsTlv (size : ℕ) (bytes : Bytes) :
    ThrowsOnly (fun error ↦ error.kind = .tlv) (readNonNegativeInteger size bytes) := by
  unfold readNonNegativeInteger
  refine .ite ?_ (.throw rfl)
  cases readFixed size bytes with
  | none => exact .throw rfl
  | some result => exact .ok result.1

theorem readVarNumberOrThrow_onlyTlvErrors (bytes : Bytes) :
    OnlyTlvErrors (readVarNumberOrThrow bytes) :=
  .ofTlv (readVarNumberOrThrow_throwsTlv bytes)

theorem readTypeOrThrow_onlyTlvErrors (bytes : Bytes) : OnlyTlvErrors (readTypeOrThrow bytes) :=
  .ofTlv (readTypeOrThrow_throwsTlv bytes)

theorem readNonNegativeInteger_onlyTlvErrors (size : ℕ) (bytes : Bytes) :
    OnlyTlvErrors (readNonNegativeInteger size bytes) :=
  .ofTlv (readNonNegativeInteger_throwsTlv size bytes)

/-! ## Readers and trailing bytes -/

variable {bytes : Bytes} {number : ℕ} {rest : Bytes} {result : ℕ × Bytes} {width : ℕ}

theorem readFixed_append (tail : Bytes) (hread : readFixed width bytes = some (number, rest)) :
    readFixed width (bytes ++ tail) = some (number, rest ++ tail) := by
  unfold readFixed at hread ⊢
  split_ifs at hread with hshort
  obtain ⟨rfl, rfl⟩ := by simpa using hread
  have hwidth : width ≤ bytes.length := Nat.not_lt.mp hshort
  rw [if_neg (by simp; omega), List.take_append_of_le_length hwidth,
    List.drop_append_of_le_length hwidth]

/-- Bytes after a readable number do not change it. -/
theorem readVarNumber_append (tail : Bytes) (hread : readVarNumber bytes = some (number, rest)) :
    readVarNumber (bytes ++ tail) = some (number, rest ++ tail) := by
  cases bytes with
  | nil => simp [readVarNumber] at hread
  | cons firstOctet body =>
    simp only [readVarNumber, List.cons_append] at hread ⊢
    split_ifs at hread ⊢
    · obtain ⟨rfl, rfl⟩ := by simpa using hread
      rfl
    all_goals exact readFixed_append tail hread

theorem readType_append (tail : Bytes) (hread : readType bytes = some (number, rest)) :
    readType (bytes ++ tail) = some (number, rest ++ tail) := by
  unfold readType at hread ⊢
  cases hnumber : readVarNumber bytes with
  | none => simp [hnumber] at hread
  | some pair =>
    obtain ⟨value, remaining⟩ := pair
    rw [readVarNumber_append tail hnumber]
    simp only [hnumber] at hread ⊢
    split_ifs at hread ⊢
    obtain ⟨rfl, rfl⟩ := by simpa using hread
    rfl

/-- A reader returns a suffix of its input. -/
theorem readFixed_suffix (hread : readFixed width bytes = some (number, rest)) :
    rest <:+ bytes := by
  unfold readFixed at hread
  split_ifs at hread
  obtain ⟨-, rfl⟩ := by simpa using hread
  exact List.drop_suffix width bytes

theorem readVarNumber_suffix (hread : readVarNumber bytes = some (number, rest)) :
    rest <:+ bytes := by
  cases bytes with
  | nil => simp [readVarNumber] at hread
  | cons firstOctet body =>
    simp only [readVarNumber] at hread
    refine List.IsSuffix.trans ?_ (List.suffix_cons firstOctet body)
    split_ifs at hread
    · obtain ⟨-, rfl⟩ := by simpa using hread
      exact List.suffix_rfl
    all_goals exact readFixed_suffix hread

theorem readType_suffix (hread : readType bytes = some (number, rest)) : rest <:+ bytes := by
  unfold readType at hread
  cases hnumber : readVarNumber bytes with
  | none => simp [hnumber] at hread
  | some pair =>
    obtain ⟨value, remaining⟩ := pair
    simp only [hnumber] at hread
    split_ifs at hread
    obtain ⟨-, rfl⟩ := by simpa using hread
    exact readVarNumber_suffix hnumber

theorem readType_eq_some_iff :
    readType bytes = some result ↔ readVarNumber bytes = some result ∧ result.1 < 2 ^ 32 := by
  unfold readType
  cases readVarNumber bytes with
  | none => simp
  | some found =>
    simp only [Option.some.injEq]
    split_ifs with hlarge
    · simp only [false_iff]
      rintro ⟨rfl, hsmall⟩
      omega
    · constructor
      · intro hfound
        cases hfound
        exact ⟨rfl, by omega⟩
      · rintro ⟨rfl, -⟩
        rfl

/-! ## Written numbers -/

theorem length_writeVarNumber (varNumber : ℕ) :
    (writeVarNumber varNumber).length = sizeOfVarNumber varNumber := by
  unfold writeVarNumber sizeOfVarNumber
  split_ifs <;> simp

theorem sizeOfVarNumber_pos (varNumber : ℕ) : 0 < sizeOfVarNumber varNumber := by
  unfold sizeOfVarNumber
  split_ifs <;> simp

theorem sizeOfVarNumber_le (varNumber : ℕ) : sizeOfVarNumber varNumber ≤ 9 := by
  unfold sizeOfVarNumber
  split_ifs <;> simp

theorem readFixed_ofNumber_append (hfits : number < 256 ^ width) (tail : Bytes) :
    readFixed width (Bytes.ofNumber width number ++ tail) = some (number, tail) := by
  have hlength := Bytes.length_ofNumber width number
  have htake : (Bytes.ofNumber width number ++ tail).take width = Bytes.ofNumber width number :=
    List.take_left' hlength
  have hdrop : (Bytes.ofNumber width number ++ tail).drop width = tail := List.drop_left' hlength
  rw [readFixed, if_neg (by simp), htake, hdrop, Bytes.toNumber_ofNumber hfits]

/-- A number written in the shortest form is read back, whatever follows it. -/
theorem readVarNumber_writeVarNumber_append {varNumber : ℕ} (hnumber : varNumber < 2 ^ 64)
    (tail : Bytes) :
    readVarNumber (writeVarNumber varNumber ++ tail) = some (varNumber, tail) := by
  unfold writeVarNumber
  split_ifs with hone htwo hfour
  · have hoctet : (UInt8.ofNat varNumber).toNat = varNumber := by
      rw [UInt8.toNat_ofNat']
      omega
    have hsmall : UInt8.ofNat varNumber < 253 := by
      rw [UInt8.lt_iff_toNat_lt, hoctet]
      exact hone
    rw [List.singleton_append, readVarNumber, if_pos hsmall, hoctet]
  · have hfits : varNumber < 256 ^ 2 := by omega
    exact readFixed_ofNumber_append hfits tail
  · have hfits : varNumber < 256 ^ 4 := by omega
    exact readFixed_ofNumber_append hfits tail
  · have hfits : varNumber < 256 ^ 8 := by omega
    exact readFixed_ofNumber_append hfits tail

theorem readType_writeVarNumber_append {type : ℕ} (htype : type < 2 ^ 32) (tail : Bytes) :
    readType (writeVarNumber type ++ tail) = some (type, tail) := by
  rw [readType, readVarNumber_writeVarNumber_append (by omega)]
  exact if_neg (by omega)

/-! ## The throwing readers accept what the others accept -/

theorem readVarNumberOrThrow_eq_ok_iff :
    readVarNumberOrThrow bytes = .ok result ↔ readVarNumber bytes = some result := by
  cases bytes with
  | nil => simp [readVarNumberOrThrow, readVarNumber]
  | cons firstOctet rest =>
    simp only [readVarNumberOrThrow, List.isEmpty_cons, Bool.false_eq_true, if_false]
    cases readVarNumber (firstOctet :: rest) with
    | none => simp
    | some found => simp

theorem readTypeOrThrow_eq_ok_iff :
    readTypeOrThrow bytes = .ok result ↔ readType bytes = some result := by
  unfold readTypeOrThrow readType
  cases hread : readVarNumber bytes with
  | none =>
    cases hthrow : readVarNumberOrThrow bytes with
    | error error => simp [bind, Except.bind]
    | ok found => simp [readVarNumberOrThrow_eq_ok_iff.mp hthrow] at hread
  | some found =>
    rw [readVarNumberOrThrow_eq_ok_iff.mpr hread]
    simp only [bind, Except.bind, throw, throwThe, MonadExceptOf.throw, pure, Except.pure]
    split_ifs <;> simp

/-! ## Non-negative integers -/

theorem prependNonNegativeIntegerSize_cases (number : ℕ) :
    prependNonNegativeIntegerSize number = 1 ∨ prependNonNegativeIntegerSize number = 2 ∨
      prependNonNegativeIntegerSize number = 4 ∨ prependNonNegativeIntegerSize number = 8 := by
  unfold prependNonNegativeIntegerSize
  split_ifs <;> simp

theorem lt_pow_prependNonNegativeIntegerSize (hnumber : number < 2 ^ 64) :
    number < 256 ^ prependNonNegativeIntegerSize number := by
  unfold prependNonNegativeIntegerSize
  split_ifs <;> simp at * <;> omega

/-- A wider encoding is only chosen for a larger number. -/
theorem lt_of_prependNonNegativeIntegerSize_lt {number' : ℕ}
    (hsize : prependNonNegativeIntegerSize number < prependNonNegativeIntegerSize number') :
    number < number' := by
  unfold prependNonNegativeIntegerSize at hsize
  split_ifs at hsize <;> omega

theorem readNonNegativeInteger_prepend (hnumber : number < 2 ^ 64) :
    readNonNegativeInteger (prependNonNegativeIntegerSize number)
        (prependNonNegativeInteger number) =
      .ok number := by
  have hread : readFixed (prependNonNegativeIntegerSize number) (prependNonNegativeInteger number) =
      some (number, []) := by
    have htake := List.take_of_length_le
      (Bytes.length_ofNumber (prependNonNegativeIntegerSize number) number).le
    simp [readFixed, prependNonNegativeInteger, htake,
      Bytes.toNumber_ofNumber (lt_pow_prependNonNegativeIntegerSize hnumber)]
  rw [readNonNegativeInteger, if_pos (prependNonNegativeIntegerSize_cases number), hread]

end Tlv

end NdnCxx
