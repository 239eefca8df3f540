import NdnCxx.Encoding.Encoder

/-!
# Writing elements on an encoder

The packet classes write themselves with `wireEncode(EncodingImpl<TAG>&)`: the parts are prepended
last to first, the numbers of bytes are added up, and the sum is the length that stands in front of
them. Such a function is a writer. What a writer of this kind has put in front of an encoder does not
depend on what the encoder held before.
-/

namespace NdnCxx.Encoder

abbrev Writer := Encoder → Except Error (ℕ × Encoder)

namespace Writer

/-- An operation of the encoder, which never throws. -/
def ofOperation (operation : Encoder → ℕ × Encoder) : Writer := fun encoder ↦ .ok (operation encoder)

def skip : Writer := fun encoder ↦ .ok (0, encoder)

/-- A part that is written under a condition. -/
def writeIf (condition : Bool) (writer : Writer) : Writer := if condition then writer else skip

/-- Both write, and `totalLength` is the sum. -/
def andThen (first second : Writer) : Writer := fun encoder ↦ do
  let (firstLength, written) ← first encoder
  let (secondLength, both) ← second written
  return (firstLength + secondLength, both)

/-- The loop over the elements from `rbegin` to `rend`. -/
def lastToFirst (writers : List Writer) : Writer :=
  writers.foldr (fun writer later ↦ later.andThen writer) skip

/-- The end of an element: `totalLength` is prepended, and then the type. -/
def element (type : ℕ) (body : Writer) : Writer := fun encoder ↦ do
  let (totalLength, written) ← body encoder
  let (lengthLength, withLength) := written.prependVarNumber totalLength
  let (typeLength, withType) := withLength.prependVarNumber type
  return (totalLength + lengthLength + typeLength, withType)

def nonNegativeIntegerBlock (type number : ℕ) : Writer :=
  element type (ofOperation fun encoder ↦ encoder.prependNonNegativeInteger number)

/-- `Encoder::prependBlock` of the block that a getter returns -/
def block (make : Except Error Block) : Writer := fun encoder ↦ do
  let block ← make
  return encoder.prependBlock block.toElement

variable {encoder : Encoder} {result : ℕ × Encoder} {written : Except Error Bytes}

theorem andThen_of_eq_ok {first second : Writer} {both : ℕ × Encoder}
    (hfirst : first encoder = .ok result) (hsecond : second result.2 = .ok both) :
    first.andThen second encoder = .ok (result.1 + both.1, both.2) := by
  simp only [andThen, hfirst, hsecond, bind, Except.bind]
  rfl

theorem andThen_of_eq_error {first second : Writer} {error : Error}
    (hfirst : first encoder = .ok result) (hsecond : second result.2 = .error error) :
    first.andThen second encoder = .error error := by
  simp only [andThen, hfirst, hsecond, bind, Except.bind]

theorem andThen_assoc (first second third : Writer) :
    (first.andThen second).andThen third = first.andThen (second.andThen third) := by
  funext encoder
  simp only [andThen, bind_assoc, pure_bind, Nat.add_assoc]

variable {body : Writer}

/-- The header counts what the body has returned. -/
theorem content_element (hbody : body encoder = .ok result) (type : ℕ) :
    ∃ closed, element type body encoder = .ok closed ∧ closed.2.content =
      Tlv.writeVarNumber type ++ (Tlv.writeVarNumber result.1 ++ result.2.content) := by
  have hlength := prependVarNumber_spec result.2 result.1
  have htype := prependVarNumber_spec (result.2.prependVarNumber result.1).2 type
  refine ⟨_, by simp only [element, hbody]; rfl, ?_⟩
  rw [htype.1, hlength.1]

/-! ## What is put in front -/

/-- The writer puts the bytes in front of every encoder and returns their number, or it throws on
every encoder. -/
def Puts (writer : Writer) : Except Error Bytes → Prop
  | .ok bytes => ∀ encoder, ∃ result, writer encoder = .ok result ∧ encoder.Prepends result bytes
  | .error error => ∀ encoder, writer encoder = .error error

theorem puts_ofOperation {operation : Encoder → ℕ × Encoder} {bytes : Bytes}
    (hprepends : ∀ encoder : Encoder, encoder.Prepends (operation encoder) bytes) :
    (ofOperation operation).Puts (.ok bytes) :=
  fun encoder ↦ ⟨operation encoder, rfl, hprepends encoder⟩

theorem puts_skip : skip.Puts (.ok []) := fun encoder ↦ ⟨(0, encoder), rfl, rfl, rfl⟩

theorem Puts.writeIf {writer : Writer} (hputs : writer.Puts written) (condition : Bool) :
    (writeIf condition writer).Puts (Block.writtenIf condition written) := by
  cases condition with
  | true => exact hputs
  | false => exact puts_skip

theorem Puts.andThen {first second : Writer} {behind front : Except Error Bytes}
    (hfirst : first.Puts behind) (hsecond : second.Puts front) :
    (first.andThen second).Puts (do
      let behindBytes ← behind
      let frontBytes ← front
      return frontBytes ++ behindBytes) := by
  cases behind with
  | error error =>
    intro encoder
    simp only [Writer.andThen, hfirst encoder]
    rfl
  | ok behindBytes =>
    cases front with
    | error error =>
      intro encoder
      obtain ⟨result, hresult, -⟩ := hfirst encoder
      exact andThen_of_eq_error hresult (hsecond result.2)
    | ok frontBytes =>
      intro encoder
      obtain ⟨result, hresult, hbehind⟩ := hfirst encoder
      obtain ⟨both, hboth, hfront⟩ := hsecond result.2
      exact ⟨(result.1 + both.1, both.2), andThen_of_eq_ok hresult hboth, hbehind.comp hfront⟩

theorem puts_lastToFirst {Part : Type*} {parts : List Part} {writer : Part → Writer}
    {written : Part → Bytes} (hputs : ∀ part ∈ parts, (writer part).Puts (.ok (written part))) :
    (lastToFirst (parts.map writer)).Puts (.ok (parts.flatMap written)) := by
  induction parts with
  | nil => exact puts_skip
  | cons part parts ih =>
    have hlater := ih fun other hmem ↦ hputs other (List.mem_cons_of_mem part hmem)
    exact hlater.andThen (hputs part List.mem_cons_self)

theorem Puts.element (hputs : body.Puts written) (type : ℕ) :
    (element type body).Puts (do return Tlv.prependByteArrayBlock type (← written)) := by
  cases written with
  | error error =>
    intro encoder
    simp only [Writer.element, hputs encoder]
    rfl
  | ok bytes =>
    intro encoder
    obtain ⟨⟨count, next⟩, hresult, hbody⟩ := hputs encoder
    obtain ⟨hcontent, rfl⟩ := hbody
    have hheader := ((show encoder.Prepends (bytes.length, next) bytes from ⟨hcontent, rfl⟩).comp
      (prependVarNumber_spec next bytes.length)).comp (prependVarNumber_spec _ type)
    exact ⟨_, by simp only [Writer.element, hresult]; rfl, hheader⟩

theorem puts_nonNegativeIntegerBlock (type number : ℕ) :
    (nonNegativeIntegerBlock type number).Puts
      (.ok (Block.prependNonNegativeIntegerBlock type number)) :=
  (puts_ofOperation fun encoder ↦ encoder.prependNonNegativeInteger_spec number).element type

theorem puts_block (make : Except Error Block) :
    (block make).Puts (do return Block.prependWire (← make).wire) := by
  cases make with
  | error error => exact fun encoder ↦ rfl
  | ok block => exact fun encoder ↦ ⟨_, rfl, encoder.prependBlock_spec block.toElement⟩

end Writer

end NdnCxx.Encoder
