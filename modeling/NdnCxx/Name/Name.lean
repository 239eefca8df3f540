import Mathlib.Order.RelClasses
import NdnCxx.Name.Uri
import NdnCxx.Foundation.Lexicographic

/-!
# Names

A `Name` is the list of its components. `Name::compare` is the lexicographic order over
`Component::compare`, which is the order of lists over the canonical component order, so the order
instance of lists is the order of `std::less<Name>`. `Name::equals` and `Name::isPrefixOf` go
through `Component::equals` and therefore compare component values only.
-/

namespace NdnCxx

abbrev Name := List Component

/-- What ordered maps with names as keys rest on. -/
instance : IsStrictTotalOrder Name (· < ·) := inferInstance

instance : LawfulBEq Name := inferInstance

namespace Name

/-- The common loop of `equals` and `isPrefixOf` over the components of the first name. -/
def matchComponents : Name → Name → Bool
  | [], _ => true
  | _ :: _, [] => false
  | component :: rest, other :: others =>
      if !component.equals other then false else matchComponents rest others

def equals (name other : Name) : Bool :=
  if name.length ≠ other.length then false else matchComponents name other

def isPrefixOf (name other : Name) : Bool :=
  if name.length > other.length then false else matchComponents name other

def compare : Name → Name → Ordering
  | [], [] => .eq
  | [], _ :: _ => .lt
  | _ :: _, [] => .gt
  | component :: rest, other :: others =>
      match component.compare other with
      | .eq => compare rest others
      | unequal => unequal

/-- `Name::getPrefix`; a negative count beyond the size wraps around to a count that leaves the
whole name. -/
def getPrefix (name : Name) (nComponents : ℤ) : Name :=
  if nComponents < 0 then
    if 0 ≤ name.length + nComponents then name.take (name.length + nComponents).toNat else name
  else name.take nComponents.toNat

/-- `Name::get`, also `operator[]`; `none` is an access outside the name. -/
def get (name : Name) (i : ℤ) : Option Component :=
  if i ≥ 0 then name[i.toNat]?
  else if 0 ≤ name.length + i then name[(name.length + i).toNat]?
  else none

def toUri (name : Name) : String :=
  String.ofList
    (if name.isEmpty then ['/'] else name.flatMap fun component ↦ '/' :: component.toUri)

@[simp]
theorem getPrefix_natCast (name : Name) (count : ℕ) : name.getPrefix count = name.take count := by
  simp [getPrefix]

theorem get_append_singleton (name : Name) (component : Component) :
    get (name ++ [component]) (-1) = some component := by
  simp [get]

theorem getPrefix_append_singleton (name : Name) (component : Component) :
    getPrefix (name ++ [component]) (-1) = name := by
  simp [getPrefix]

variable {name other : Name}

/-- The list order on names is the order decided by `Name::compare`. -/
theorem compare_eq_lt_iff : name.compare other = .lt ↔ name < other := by
  induction name generalizing other with
  | nil => cases other <;> simp [compare]
  | cons component rest ih =>
    cases other with
    | nil => simp [compare]
    | cons component' rest' =>
      rw [compare, List.cons_lt_cons_iff]
      cases hcmp : component.compare component' with
      | lt => simp [Component.lt_iff_compare, hcmp]
      | eq =>
        obtain rfl := Component.compare_eq_eq_iff.mp hcmp
        simp [ih]
      | gt =>
        have hne : component ≠ component' := by
          rintro rfl
          simp [Component.compare_eq_eq_iff.mpr rfl] at hcmp
        simp [Component.lt_iff_compare, hcmp, hne]

theorem compare_swap (name other : Name) : (name.compare other).swap = other.compare name := by
  induction name generalizing other with
  | nil => cases other <;> rfl
  | cons component rest ih =>
    cases other with
    | nil => rfl
    | cons component' rest' =>
      rw [compare, compare, ← Component.compare_swap component component']
      cases component.compare component' with
      | lt => rfl
      | eq => exact ih rest'
      | gt => rfl

theorem compare_ne_gt_iff : name.compare other ≠ .gt ↔ name ≤ other := by
  rw [← not_lt, ← compare_eq_lt_iff, ← compare_swap name other]
  cases name.compare other <;> simp

theorem matchComponents_iff :
    matchComponents name other = true ↔
      name.map Component.value <+: other.map Component.value := by
  induction name generalizing other with
  | nil => simp [matchComponents]
  | cons component rest ih =>
    cases other with
    | nil => simp [matchComponents]
    | cons component' rest' =>
      rw [matchComponents, List.map_cons, List.map_cons, List.cons_prefix_cons, ← ih,
        ← Component.equals_iff]
      cases component.equals component' <;> simp

/-- Prefixes are recognised by the component values. -/
theorem isPrefixOf_iff :
    name.isPrefixOf other = true ↔ name.map Component.value <+: other.map Component.value := by
  unfold isPrefixOf
  split_ifs with hlength
  · refine iff_of_false (by simp) fun hprefixed ↦ ?_
    have hle := hprefixed.length_le
    simp only [List.length_map] at hle
    omega
  · exact matchComponents_iff

/-- Equality of names is equality of the component values. -/
theorem equals_iff :
    name.equals other = true ↔ name.map Component.value = other.map Component.value := by
  unfold equals
  split_ifs with hlength
  · refine iff_of_false (by simp) fun heq ↦ hlength ?_
    simpa using congrArg List.length heq
  · rw [matchComponents_iff]
    exact ⟨fun hprefixed ↦ hprefixed.eq_of_length (by simpa using hlength), fun heq ↦ by rw [heq]⟩

theorem isPrefixOf_of_isPrefix (hprefixed : name <+: other) : name.isPrefixOf other = true := by
  rw [isPrefixOf_iff]
  exact hprefixed.map Component.value

end Name

end NdnCxx
