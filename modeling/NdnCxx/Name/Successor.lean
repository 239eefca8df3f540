import NdnCxx.Name.Name

/-!
# Successors

The successor of a component is the next one of its type in the canonical order: the value counted
up by one, or one byte more of zeros behind the greatest value of a length. Between a name and its
successor lie exactly the names that begin with it, which is what a range scan by prefix rests on.
-/

namespace NdnCxx

namespace Component

/-- The loop of `Component::getSuccessor`, from the last byte on: the bytes after the increment, and
`isOverflow` at its end. -/
def increment : Bytes → Bool × Bytes
  | [] => (true, [])
  | byte :: bytes =>
      match increment bytes with
      | (true, later) => (byte + 1 == 0, (byte + 1) :: later)
      | (false, later) => (false, byte :: later)

/-- The value that `Component::getSuccessor` encodes. -/
def nextValue (value : Bytes) : Bytes :=
  match increment value with
  | (true, later) => later ++ [0]
  | (false, later) => later

/-- `Component::Component(const Block&)`, of the type and the value of a block -/
def ofBlock (type : ℕ) (value : Bytes) : Except Error Component :=
  let component : Component := ⟨type, value⟩
  if !component.isGeneric && !component.isImplicitSha256Digest then
    .error ⟨.component, "Cannot construct name::Component from not a NameComponent " ++
      "or ImplicitSha256DigestComponent TLV wire block"⟩
  else .ok component

def getSuccessor (component : Component) : Except Error Component :=
  ofBlock component.type (nextValue component.value)

theorem length_increment (value : Bytes) : (increment value).2.length = value.length := by
  induction value with
  | nil => rfl
  | cons byte bytes ih =>
    rw [increment]
    cases hincrement : increment bytes with
    | mk isOverflow later =>
      rw [hincrement] at ih
      cases isOverflow <;> simpa using ih

/-- The increment counts up by one, and overflows at a power of the base. -/
theorem toNumber_increment (value : Bytes) :
    Bytes.toNumber (increment value).2 +
      (if (increment value).1 then 256 ^ value.length else 0) = Bytes.toNumber value + 1 := by
  induction value with
  | nil => rfl
  | cons byte bytes ih =>
    have hlength := length_increment bytes
    rw [increment]
    cases hincrement : increment bytes with
    | mk isOverflow later =>
      rw [hincrement] at ih hlength
      dsimp only at ih hlength
      rw [Bytes.toNumber_cons, List.length_cons]
      cases isOverflow with
      | false =>
        rw [if_neg Bool.false_ne_true] at ih
        simp only [Bytes.toNumber_cons, hlength, Bool.false_eq_true, if_false]
        omega
      | true =>
        rw [if_pos rfl] at ih
        have hbyte := byte.toNat_lt
        simp only [Bytes.toNumber_cons, hlength, beq_iff_eq]
        by_cases hzero : byte + 1 = 0
        · have hmax : byte.toNat = 255 := by
            have hsum := congrArg UInt8.toNat hzero
            rw [UInt8.toNat_add] at hsum
            simp only [UInt8.toNat_one, UInt8.toNat_zero] at hsum
            omega
          rw [if_pos hzero, hzero, hmax, pow_succ, UInt8.toNat_zero]
          omega
        · have hnext : (byte + 1).toNat = byte.toNat + 1 := by
            have hne : (byte + 1).toNat ≠ 0 := fun hsum ↦ hzero (UInt8.toNat_inj.mp hsum)
            rw [UInt8.toNat_add] at hne ⊢
            simp only [UInt8.toNat_one] at hne ⊢
            omega
          rw [if_neg hzero, hnext, Nat.add_mul, Nat.one_mul]
          omega

theorem toNumber_concat_zero (bytes : Bytes) :
    Bytes.toNumber (bytes ++ [0]) = Bytes.toNumber bytes * 256 := by
  simp [Bytes.toNumber]

/-- The next value is longer only behind the greatest value of its length, and then it is zero. -/
theorem nextValue_cases (value : Bytes) :
    ((nextValue value).length = value.length ∧
        Bytes.toNumber (nextValue value) = Bytes.toNumber value + 1) ∨
      ((nextValue value).length = value.length + 1 ∧ Bytes.toNumber (nextValue value) = 0 ∧
        Bytes.toNumber value + 1 = 256 ^ value.length) := by
  have hlength := length_increment value
  have hnumber := toNumber_increment value
  have hbound := Bytes.toNumber_lt value
  rw [nextValue]
  cases hincrement : increment value with
  | mk isOverflow later =>
    rw [hincrement] at hlength hnumber
    dsimp only at hlength hnumber
    cases isOverflow with
    | false =>
      rw [if_neg Bool.false_ne_true, Nat.add_zero] at hnumber
      exact .inl ⟨hlength, hnumber⟩
    | true =>
      rw [if_pos rfl] at hnumber
      refine .inr ⟨by rw [List.length_append, hlength, List.length_singleton], ?_, by omega⟩
      rw [toNumber_concat_zero]
      omega

/-- A component is covered by its successor in the canonical order. -/
theorem covBy_nextValue (component : Component) :
    component ⋖ ⟨component.type, nextValue component.value⟩ := by
  have hcompare : ∀ {left right : Component}, left < right ↔ left.type < right.type ∨
      left.type = right.type ∧ (left.value.length < right.value.length ∨
        left.value.length = right.value.length ∧
          Bytes.toNumber left.value < Bytes.toNumber right.value) := by
    intro left right
    rw [lt_iff_compare, compare_eq_lt_iff]
    apply or_congr_right
    apply and_congr_right
    intro _
    apply or_congr_right
    apply and_congr_right
    intro hlength
    rw [Bytes.memcmp_eq_compare hlength, compare_lt_iff_lt]
  constructor
  · rw [hcompare]
    rcases nextValue_cases component.value with ⟨hlength, hnumber⟩ | ⟨hlength, -, -⟩
    · exact .inr ⟨rfl, .inr ⟨hlength.symm, by dsimp only; omega⟩⟩
    · exact .inr ⟨rfl, .inl (by dsimp only; omega)⟩
  · intro other hlow hhigh
    rw [hcompare] at hlow hhigh
    have hbound := Bytes.toNumber_lt other.value
    rcases nextValue_cases component.value with ⟨hlength, hnumber⟩ | ⟨hlength, hzero, hgreatest⟩
    · dsimp only at hhigh
      omega
    · dsimp only at hhigh
      rcases hlow with hlow | ⟨htype, hlow | ⟨hsame, hlow⟩⟩
      · omega
      · omega
      · rw [← hsame] at hbound
        omega

theorem covBy_of_getSuccessor {component successor : Component}
    (hok : component.getSuccessor = .ok successor) : component ⋖ successor := by
  unfold getSuccessor ofBlock at hok
  dsimp only at hok
  split_ifs at hok
  cases hok
  exact component.covBy_nextValue

end Component

namespace Name

/-- `Name::getSuccessor`; only the empty name has no last component. -/
def getSuccessor (name : Name) : Except Error Name :=
  match name.get (-1) with
  | none => .ok [.generic [0]]
  | some last => do
      let successor ← last.getSuccessor
      return name.getPrefix (-1) ++ [successor]

end Name

end NdnCxx
