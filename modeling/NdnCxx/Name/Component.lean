import NdnCxx.Encoding.Tlv

/-!
# Name components

`name::Component` is a TLV block whose type is either `NameComponent` or
`ImplicitSha256DigestComponent`. Components handed out by `Name::get` are reinterpreted blocks, so
the type is not restricted here; `Component.isGeneric` and `Component.isImplicitSha256Digest` are
the source's own checks.

Two relations of the source must be kept apart. `Component.compare` looks at the type first, then
at the length, then at the bytes, and is a total order. `Component.equals`, which implements `==`
and `!=`, looks at the bytes only, so a generic component can be equal to a digest component without
comparing as equal to it.
-/

namespace NdnCxx

/-- A name component: TLV type and value. -/
structure Component where
  type : ℕ
  value : Bytes
  deriving DecidableEq, Repr

namespace Component

def empty : Component := ⟨Tlv.nameComponent, []⟩

def generic (value : Bytes) : Component := ⟨Tlv.nameComponent, value⟩

def isGeneric (component : Component) : Bool := component.type == Tlv.nameComponent

def isImplicitSha256Digest (component : Component) : Bool :=
  component.type == Tlv.implicitSha256DigestComponent &&
    component.value.length == Tlv.sha256DigestSize

/-- A component that `Component(const Block&)` accepts. -/
def IsValid (component : Component) : Prop :=
  component.isGeneric = true ∨ component.isImplicitSha256Digest = true

instance (component : Component) : Decidable component.IsValid :=
  inferInstanceAs (Decidable (_ ∨ _))

/-- `Component::equals`, also `operator==`: the type takes no part in it. -/
def equals (component other : Component) : Bool :=
  if component.value.length != other.value.length then false
  else if component.value.length == 0 then true
  else component.value == other.value

def compare (component other : Component) : Ordering :=
  if component.type < other.type then .lt
  else if component.type > other.type then .gt
  else if component.value.length < other.value.length then .lt
  else if component.value.length > other.value.length then .gt
  else if component.value.length = 0 then .eq
  else Bytes.memcmp component.value other.value

def isNumber (component : Component) : Bool :=
  component.value.length == 1 || component.value.length == 2 || component.value.length == 4 ||
    component.value.length == 8

def toNumber (component : Component) : Except Error ℕ :=
  if !component.isNumber then
    .error ⟨.component, "Name component does not have nonNegativeInteger value"⟩
  else Tlv.readNonNegativeInteger component.value.length component.value

variable {component : Component} {other : Component}

theorem equals_iff : component.equals other = true ↔ component.value = other.value := by
  unfold equals
  split_ifs with hlength hzero
  · simp only [bne_iff_ne, ne_eq] at hlength
    exact ⟨by simp, fun h ↦ absurd (by rw [h]) hlength⟩
  · simp only [bne_iff_ne, ne_eq, Decidable.not_not] at hlength
    have hempty : component.value = [] := by simpa using hzero
    have hother : other.value = [] := by rw [hempty] at hlength; simpa using hlength.symm
    simp [hempty, hother]
  · simp

/-! ## The canonical order -/

theorem compare_eq_of_types (htype : component.type = other.type)
    (hlength : component.value.length = other.value.length) :
    component.compare other = Bytes.memcmp component.value other.value := by
  unfold compare
  simp only [htype, hlength, Nat.lt_irrefl, if_false, gt_iff_lt]
  split_ifs with hzero
  · have hother : other.value = [] := List.length_eq_zero_iff.mp hzero
    simp [hother, List.length_eq_zero_iff.mp (hlength.trans hzero)]
  · rfl

/-- The three stages of the comparison, as one disjunction. -/
theorem compare_eq_lt_iff :
    component.compare other = .lt ↔
      component.type < other.type ∨ component.type = other.type ∧
        (component.value.length < other.value.length ∨
          component.value.length = other.value.length ∧
            Bytes.memcmp component.value other.value = .lt) := by
  by_cases htype : component.type = other.type
  · by_cases hlength : component.value.length = other.value.length
    · simp [compare_eq_of_types htype hlength, htype, hlength]
    · unfold compare
      grind
  · unfold compare
    grind

theorem compare_swap (component other : Component) :
    (component.compare other).swap = other.compare component := by
  by_cases htype : component.type = other.type
  · by_cases hlength : component.value.length = other.value.length
    · rw [compare_eq_of_types htype hlength, compare_eq_of_types htype.symm hlength.symm,
        Bytes.memcmp_swap]
    · unfold compare
      simp only [htype, Nat.lt_irrefl, if_false, gt_iff_lt]
      split_ifs <;> first | rfl | omega
  · unfold compare
    split_ifs <;> first | rfl | omega

theorem compare_eq_eq_iff : component.compare other = .eq ↔ component = other := by
  constructor
  · intro hcmp
    have hnot : ¬ component.compare other = .lt ∧ ¬ other.compare component = .lt := by
      rw [← compare_swap component other, hcmp]
      simp
    rw [compare_eq_lt_iff, compare_eq_lt_iff] at hnot
    have htype : component.type = other.type := by omega
    have hlength : component.value.length = other.value.length := by omega
    rw [compare_eq_of_types htype hlength] at hcmp
    cases component
    cases other
    simp only [mk.injEq]
    exact ⟨htype, Bytes.eq_of_memcmp_eq hlength hcmp⟩
  · rintro rfl
    rw [compare_eq_of_types rfl rfl, Bytes.memcmp_self]

theorem compare_lt_trans {first second third : Component} (hfirst : first.compare second = .lt)
    (hsecond : second.compare third = .lt) : first.compare third = .lt := by
  rw [compare_eq_lt_iff] at hfirst hsecond ⊢
  rcases hfirst with hfirst | ⟨htype, hfirst | ⟨hlength, hfirst⟩⟩
  · left
    omega
  · rcases hsecond with hsecond | ⟨htype', hsecond | ⟨hlength', hsecond⟩⟩ <;> omega
  · rcases hsecond with hsecond | ⟨htype', hsecond | ⟨hlength', hsecond⟩⟩
    · left
      omega
    · exact Or.inr ⟨htype.trans htype', Or.inl (by omega)⟩
    · exact Or.inr ⟨htype.trans htype', Or.inr ⟨hlength.trans hlength',
        Bytes.memcmp_lt_trans hlength hfirst hsecond⟩⟩

/-- The order of `operator<` and `operator<=`, which is a total order on components. -/
instance : LinearOrder Component where
  lt component other := component.compare other = .lt
  le component other := component.compare other ≠ .gt
  le_refl component := by simp [compare_eq_eq_iff.mpr]
  le_trans first second third hfirst hsecond := by
    have hsplit {left right : Component} (h : left.compare right ≠ .gt) :
        left.compare right = .lt ∨ left = right := by
      cases hcmp : left.compare right with
      | lt => exact Or.inl rfl
      | eq => exact Or.inr (compare_eq_eq_iff.mp hcmp)
      | gt => exact absurd hcmp h
    rcases hsplit hfirst with hlt | rfl
    · rcases hsplit hsecond with hlt' | rfl
      · simp [compare_lt_trans hlt hlt']
      · exact hfirst
    · exact hsecond
  le_antisymm first second hfirst hsecond := by
    rw [← compare_swap first second] at hsecond
    apply compare_eq_eq_iff.mp
    cases hcmp : first.compare second <;> simp_all
  le_total first second := by
    rw [← compare_swap first second]
    cases first.compare second <;> simp
  lt_iff_le_not_ge first second := by
    rw [← compare_swap first second]
    cases first.compare second <;> simp
  toDecidableLE := fun component other ↦ inferInstanceAs (Decidable (component.compare other ≠ .gt))
  toDecidableLT := fun component other ↦ inferInstanceAs (Decidable (component.compare other = .lt))
  toDecidableEq := inferInstance

theorem lt_iff_compare : component < other ↔ component.compare other = .lt := Iff.rfl

end Component

end NdnCxx
