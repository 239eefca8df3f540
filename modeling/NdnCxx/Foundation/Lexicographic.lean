import Mathlib.Data.List.Lex
import Mathlib.Data.List.Infix
import Mathlib.Order.Cover
import Mathlib.Order.Lattice

/-!
# Prefixes in the lexicographic order

In the lexicographic order on lists the extensions of a fixed list form an interval that starts at
the list itself, and cutting lists to a common length is monotone. These are the facts behind every
search in a container sorted by hierarchical names.
-/

namespace NdnCxx.Lexicographic

variable {Letter : Type*} [LinearOrder Letter]

theorem nil_le (list : List Letter) : [] ≤ list := by
  cases list with
  | nil => exact le_rfl
  | cons head tail => exact (List.nil_lt_cons head tail).le

theorem cons_le_cons_iff {first second : Letter} {firsts seconds : List Letter} :
    first :: firsts ≤ second :: seconds ↔ first < second ∨ first = second ∧ firsts ≤ seconds := by
  rw [← not_lt, List.cons_lt_cons_iff, not_or, not_lt, not_and, not_lt]
  constructor
  · rintro ⟨hle, htail⟩
    rcases hle.lt_or_eq with hlt | heq
    · exact Or.inl hlt
    · exact Or.inr ⟨heq, htail heq.symm⟩
  · rintro (hlt | ⟨rfl, hle⟩)
    · exact ⟨hlt.le, fun heq ↦ absurd heq hlt.ne'⟩
    · exact ⟨le_rfl, fun _ ↦ hle⟩

/-- A list comes before its extensions. -/
theorem le_of_isPrefix {stem list : List Letter} (hprefixed : stem <+: list) : stem ≤ list := by
  induction stem generalizing list with
  | nil => exact nil_le list
  | cons head tail ih =>
    obtain ⟨rest, rfl⟩ := hprefixed
    exact cons_le_cons_iff.mpr (Or.inr ⟨rfl, ih ⟨rest, rfl⟩⟩)

/-- What lies between a list and one of its extensions is an extension too. -/
theorem isPrefix_of_between {stem middle list : List Letter} (hprefixed : stem <+: list)
    (hlow : stem ≤ middle) (hhigh : middle ≤ list) : stem <+: middle := by
  induction stem generalizing middle list with
  | nil => exact List.nil_prefix
  | cons head tail ih =>
    obtain ⟨rest, rfl⟩ := hprefixed
    cases middle with
    | nil => exact absurd hlow (List.nil_lt_cons head tail).not_ge
    | cons first firsts =>
      rw [List.cons_append] at hhigh
      rcases cons_le_cons_iff.mp hlow with hlt | ⟨rfl, hlowTail⟩
      · rcases cons_le_cons_iff.mp hhigh with hgt | ⟨rfl, _⟩
        · exact absurd hlt hgt.not_gt
        · exact absurd hlt (lt_irrefl _)
      · rcases cons_le_cons_iff.mp hhigh with hgt | ⟨_, hhighTail⟩
        · exact absurd hgt (lt_irrefl _)
        · exact List.cons_prefix_cons.mpr ⟨rfl, ih ⟨rest, rfl⟩ hlowTail hhighTail⟩

theorem take_le_take {first second : List Letter} (hle : first ≤ second) (count : ℕ) :
    first.take count ≤ second.take count := by
  induction count generalizing first second with
  | zero => simp
  | succ count ih =>
    cases first with
    | nil => exact nil_le _
    | cons head tail =>
      cases second with
      | nil => exact absurd hle (List.nil_lt_cons head tail).not_ge
      | cons head' tail' =>
        rw [List.take_succ_cons, List.take_succ_cons]
        rcases cons_le_cons_iff.mp hle with hlt | ⟨rfl, htail⟩
        · exact cons_le_cons_iff.mpr (Or.inl hlt)
        · exact cons_le_cons_iff.mpr (Or.inr ⟨rfl, ih htail⟩)

/-- Where one letter covers another, the extensions of a list that ends in the smaller letter are
the interval up to the list that ends in the larger one. -/
theorem mem_interval_iff_isPrefix {stem list : List Letter} {letter next : Letter}
    (hcovers : letter ⋖ next) :
    stem ++ [letter] ≤ list ∧ list < stem ++ [next] ↔ stem ++ [letter] <+: list := by
  induction stem generalizing list with
  | nil =>
    simp only [List.nil_append]
    cases list with
    | nil =>
      have hnot : ¬ [letter] ≤ [] := (List.nil_lt_cons letter []).not_ge
      simp [hnot]
    | cons head tail =>
      have hsame : head < next ∧ letter ≤ head ↔ letter = head := by
        constructor
        · rintro ⟨hbelow, hle⟩
          exact hle.eq_or_lt.resolve_right fun hlt ↦ hcovers.2 hlt hbelow
        · rintro rfl
          exact ⟨hcovers.lt, le_rfl⟩
      rw [cons_le_cons_iff, List.cons_lt_cons_iff, List.cons_prefix_cons]
      simp only [nil_le, and_true, List.not_lt_nil, and_false, or_false, List.nil_prefix]
      rw [← le_iff_lt_or_eq, and_comm, hsame]
  | cons first stem ih =>
    rw [List.cons_append, List.cons_append]
    cases list with
    | nil =>
      have hnot : ¬ first :: (stem ++ [letter]) ≤ [] := (List.nil_lt_cons first _).not_ge
      simp [hnot]
    | cons head tail =>
      rw [cons_le_cons_iff, List.cons_lt_cons_iff, List.cons_prefix_cons, ← ih]
      constructor
      · rintro ⟨hlow | ⟨rfl, hlow⟩, hhigh | ⟨hsame, hhigh⟩⟩
        · exact absurd hlow hhigh.not_gt
        · exact absurd hsame hlow.ne'
        · exact absurd hhigh (lt_irrefl first)
        · exact ⟨rfl, hlow, hhigh⟩
      · rintro ⟨rfl, hlow, hhigh⟩
        exact ⟨.inr ⟨rfl, hlow⟩, .inr ⟨rfl, hhigh⟩⟩

end NdnCxx.Lexicographic
