import NdnCxx.Name.Name

/-!
# Equality, order and prefixes

`compare` orders components by type, length and bytes, and names lexicographically. `equals` and
`isPrefixOf` are written separately and look at the bytes only. The two views differ exactly where
components of different types have the same bytes: such components are equal without comparing as
equal, and a name can be a prefix of a name that is smaller.
-/

namespace NdnCxx

namespace Name

/-- What the comparison operations promise about three components and three names. -/
structure ComparisonContract (first second third : Component) (name other another : Name) :
    Prop where
  equals_iff : first.equals second = true ↔ first.compare second = .eq
  antisymm : first.compare second ≠ .gt → second.compare first ≠ .gt → first = second
  trans : first.compare second ≠ .gt → second.compare third ≠ .gt → first.compare third ≠ .gt
  total : first.compare second ≠ .gt ∨ second.compare first ≠ .gt
  name_equals_iff : name.equals other = true ↔ name.compare other = .eq
  name_antisymm : name.compare other ≠ .gt → other.compare name ≠ .gt → name = other
  name_trans : name.compare other ≠ .gt → other.compare another ≠ .gt → name.compare another ≠ .gt
  name_total : name.compare other ≠ .gt ∨ other.compare name ≠ .gt
  lexicographic : name.compare other = .lt ↔
    (name <+: other ∧ name ≠ other) ∨
      ∃ common component component' rest rest', name = common ++ component :: rest ∧
        other = common ++ component' :: rest' ∧ component.compare component' = .lt
  isPrefixOf : name.isPrefixOf other = true → name.compare other ≠ .gt

/-- The names have the same bytes as far as the first one reaches, and where they first differ the
type in the second name is the smaller one. -/
def DropsType (name other : Name) : Prop :=
  name.map Component.value <+: other.map Component.value ∧
    ∃ common component component' rest rest', name = common ++ component :: rest ∧
      other = common ++ component' :: rest' ∧ component'.type < component.type

variable {name other : Name} {component : Component}

theorem compare_eq_eq_iff : name.compare other = .eq ↔ name = other := by
  induction name generalizing other with
  | nil => cases other <;> simp [compare]
  | cons component rest ih =>
    cases other with
    | nil => simp [compare]
    | cons component' rest' =>
      rw [compare, List.cons.injEq]
      cases hcmp : component.compare component' with
      | eq =>
        obtain rfl := Component.compare_eq_eq_iff.mp hcmp
        simp [ih]
      | lt =>
        have hne : component ≠ component' := fun heq ↦ by
          simp [Component.compare_eq_eq_iff.mpr heq] at hcmp
        simp [hne]
      | gt =>
        have hne : component ≠ component' := fun heq ↦ by
          simp [Component.compare_eq_eq_iff.mpr heq] at hcmp
        simp [hne]

variable {Differ : Component → Component → Prop}

/-- A place where two names with a common first component differ lies behind that component. -/
theorem exists_split_cons_iff {rest rest' : Name}
    (hirrefl : ∀ component, ¬ Differ component component) :
    (∃ common first second later later', component :: rest = common ++ first :: later ∧
      component :: rest' = common ++ second :: later' ∧ Differ first second) ↔
      ∃ common first second later later', rest = common ++ first :: later ∧
        rest' = common ++ second :: later' ∧ Differ first second := by
  constructor
  · rintro ⟨common, first, second, later, later', hname, hother, hdiffer⟩
    cases common with
    | nil =>
      obtain ⟨rfl, -⟩ := List.cons.inj hname
      obtain ⟨rfl, -⟩ := List.cons.inj hother
      exact absurd hdiffer (hirrefl component)
    | cons head common =>
      exact ⟨common, first, second, later, later', (List.cons.inj hname).2,
        (List.cons.inj hother).2, hdiffer⟩
  · rintro ⟨common, first, second, later, later', rfl, rfl, hdiffer⟩
    exact ⟨component :: common, first, second, later, later', rfl, rfl, hdiffer⟩

/-- Two names with different first components differ there. -/
theorem exists_split_cons_of_ne {component' : Component} {rest rest' : Name}
    (hne : component ≠ component') :
    (∃ common first second later later', component :: rest = common ++ first :: later ∧
      component' :: rest' = common ++ second :: later' ∧ Differ first second) ↔
      Differ component component' := by
  constructor
  · rintro ⟨common, first, second, later, later', hname, hother, hdiffer⟩
    cases common with
    | nil =>
      obtain ⟨rfl, -⟩ := List.cons.inj hname
      obtain ⟨rfl, -⟩ := List.cons.inj hother
      exact hdiffer
    | cons head common =>
      exact absurd ((List.cons.inj hname).1.trans (List.cons.inj hother).1.symm) hne
  · intro hdiffer
    exact ⟨[], component, component', rest, rest', rfl, rfl, hdiffer⟩

/-- The first place where two names differ decides; a proper prefix is smaller. -/
theorem compare_eq_lt_iff_exists : name.compare other = .lt ↔
    (name <+: other ∧ name ≠ other) ∨
      ∃ common component component' rest rest', name = common ++ component :: rest ∧
        other = common ++ component' :: rest' ∧ component.compare component' = .lt := by
  induction name generalizing other with
  | nil => cases other <;> simp [compare]
  | cons component rest ih =>
    cases other with
    | nil => simp [compare]
    | cons component' rest' =>
      by_cases hsame : component = component'
      · subst hsame
        have hself : component.compare component = .eq := Component.compare_eq_eq_iff.mpr rfl
        have hirrefl : ∀ other : Component, ¬ other.compare other = .lt := by
          intro other
          simp [Component.compare_eq_eq_iff.mpr]
        rw [exists_split_cons_iff hirrefl, compare, hself]
        simp [ih, List.cons_prefix_cons]
      · have hne : component.compare component' ≠ .eq :=
          fun heq ↦ hsame (Component.compare_eq_eq_iff.mp heq)
        rw [exists_split_cons_of_ne hsame, compare, List.cons_prefix_cons]
        cases hcmp : component.compare component' with
        | eq => exact absurd hcmp hne
        | lt => simp
        | gt => simp [hsame]

theorem equals_agrees_iff {first second : Component} :
    (first.equals second = true ↔ first.compare second = .eq) ↔
      (first.value = second.value → first.type = second.type) := by
  rw [Component.equals_iff, Component.compare_eq_eq_iff]
  obtain ⟨type, value⟩ := first
  obtain ⟨type', value'⟩ := second
  simp only [Component.mk.injEq]
  tauto

theorem eq_iff_types_and_values :
    name = other ↔ name.map Component.type = other.map Component.type ∧
      name.map Component.value = other.map Component.value := by
  induction name generalizing other with
  | nil => cases other <;> simp
  | cons component rest ih =>
    cases other with
    | nil => simp
    | cons component' rest' =>
      obtain ⟨type, value⟩ := component
      obtain ⟨type', value'⟩ := component'
      simp only [List.cons.injEq, Component.mk.injEq, List.map_cons, ih]
      tauto

theorem name_equals_agrees_iff :
    (name.equals other = true ↔ name.compare other = .eq) ↔
      (name.map Component.value = other.map Component.value →
        name.map Component.type = other.map Component.type) := by
  rw [equals_iff, compare_eq_eq_iff, eq_iff_types_and_values]
  tauto

/-- Components with the same bytes compare by their types. -/
theorem compare_eq_gt_iff_type_lt {component' : Component}
    (hvalue : component.value = component'.value) :
    component.compare component' = .gt ↔ component'.type < component.type := by
  have hself : Bytes.memcmp component'.value component'.value = .eq := Bytes.memcmp_self _
  rw [← Component.compare_swap component' component, Ordering.swap_eq_gt,
    Component.compare_eq_lt_iff, hvalue, hself]
  simp

theorem compare_eq_gt_iff_dropsType
    (hvalues : name.map Component.value <+: other.map Component.value) :
    name.compare other = .gt ↔ DropsType name other := by
  rw [DropsType, and_iff_right hvalues]
  induction name generalizing other with
  | nil => cases other <;> simp [compare]
  | cons component rest ih =>
    cases other with
    | nil => simp at hvalues
    | cons component' rest' =>
      rw [List.map_cons, List.map_cons, List.cons_prefix_cons] at hvalues
      obtain ⟨hvalue, hvalues⟩ := hvalues
      by_cases hsame : component = component'
      · subst hsame
        have hself : component.compare component = .eq := Component.compare_eq_eq_iff.mpr rfl
        rw [exists_split_cons_iff (fun other ↦ lt_irrefl other.type), compare, hself]
        exact ih hvalues
      · rw [exists_split_cons_of_ne hsame, compare, ← compare_eq_gt_iff_type_lt hvalue]
        cases hcmp : component.compare component' with
        | eq => exact absurd (Component.compare_eq_eq_iff.mp hcmp) hsame
        | lt => simp
        | gt => simp

theorem isPrefixOf_agrees_iff :
    (name.isPrefixOf other = true → name.compare other ≠ .gt) ↔ ¬ DropsType name other := by
  rw [isPrefixOf_iff]
  constructor
  · intro hle hdrops
    exact hle hdrops.1 ((compare_eq_gt_iff_dropsType hdrops.1).mpr hdrops)
  · intro hnot hvalues hgt
    exact hnot ((compare_eq_gt_iff_dropsType hvalues).mp hgt)

end Name

end NdnCxx
