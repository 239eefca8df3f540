import Mathlib.Algebra.Group.Int.Defs
import Mathlib.Algebra.Group.Nat.Defs
import Mathlib.Data.Int.Basic
import Mathlib.Tactic.Ring

/-!
# Comparing numbers that were wrapped

A number that is too large for its type is replaced by the one of the type that leaves the same
remainder. A comparison made afterwards can go wrong in two ways: a number that is out of the bounds
is taken for one within them, and a number within them is not recognized. This module says for which
numbers neither happens, for bounds on both sides and for a bound from below.
-/

namespace NdnCxx.Wrapped

variable {modulus : ℕ}

/-- The integers of the type, from half the modulus below zero to half of it above. -/
def IsCount (modulus : ℕ) (number : ℤ) : Prop := -(modulus : ℤ) ≤ number * 2 ∧ number * 2 < modulus

instance (number : ℤ) : Decidable (IsCount modulus number) := inferInstanceAs (Decidable (_ ∧ _))

theorem isCount_bmod (hmodulus : 0 < modulus) (number : ℤ) :
    IsCount modulus (Int.bmod number modulus) := by
  have hlower : -((modulus : ℤ) / 2) ≤ Int.bmod number modulus := Int.le_bmod hmodulus
  have hupper : Int.bmod number modulus < ((modulus : ℤ) + 1) / 2 := Int.bmod_lt hmodulus
  constructor
  · omega
  · omega

variable {number : ℤ}

theorem bmod_eq_self (hnumber : IsCount modulus number) : Int.bmod number modulus = number :=
  Int.bmod_eq_of_le_mul_two hnumber.1 hnumber.2

theorem bmod_eq_self_iff (hmodulus : 0 < modulus) :
    Int.bmod number modulus = number ↔ IsCount modulus number := by
  constructor
  · intro heq
    rw [← heq]
    exact isCount_bmod hmodulus number
  · exact bmod_eq_self

/-- The other numbers that a number can be taken for are whole multiples of the modulus away. -/
theorem exists_bmod_eq (modulus : ℕ) (number : ℤ) :
    ∃ turns : ℤ, Int.bmod number modulus = number + turns * modulus := by
  refine ⟨-Int.bdiv number modulus, ?_⟩
  rw [Int.bmod_eq_self_sub_bdiv_mul]
  ring

theorem bmod_eq_of_isCount {turns : ℤ} (hcount : IsCount modulus (number + turns * modulus)) :
    Int.bmod number modulus = number + turns * modulus := by
  rw [← bmod_eq_self hcount, Int.add_mul_bmod_self_right]

section Bounds

variable {lower upper : ℤ}

theorem isCount_of_between (hlower : IsCount modulus lower) (hupper : IsCount modulus upper)
    (hbetween : lower ≤ number ∧ number ≤ upper) : IsCount modulus number := by
  unfold IsCount at *
  constructor
  · omega
  · omega

/-- Wrapping is harmless to a comparison with two bounds when the number is not within them after
any whole number of turns, and the bounds are the right ones for the number itself. -/
theorem between_bmod_iff (hlower : IsCount modulus lower) (hupper : IsCount modulus upper)
    (number : ℤ) (expected : Prop) :
    ((lower ≤ Int.bmod number modulus ∧ Int.bmod number modulus ≤ upper ↔ expected) ∧
        (lower ≤ Int.bmod number modulus ∧ Int.bmod number modulus ≤ upper →
          Int.bmod number modulus = number)) ↔
      (∀ turns : ℤ, turns ≠ 0 →
        ¬ (lower ≤ number + turns * modulus ∧ number + turns * modulus ≤ upper)) ∧
      (lower ≤ number ∧ number ≤ upper ↔ expected) := by
  constructor
  · rintro ⟨hdecides, hexact⟩
    have hself : lower ≤ number ∧ number ≤ upper → Int.bmod number modulus = number :=
      fun hbetween ↦ bmod_eq_self (isCount_of_between hlower hupper hbetween)
    constructor
    · intro turns hturns hbetween
      have hwrapped := bmod_eq_of_isCount (isCount_of_between hlower hupper hbetween)
      have hsame : number + turns * modulus = number := by
        rw [← hwrapped]
        exact hexact (by rwa [hwrapped])
      have hzero : turns * (modulus : ℤ) = 0 := by omega
      rcases Int.mul_eq_zero.mp hzero with hnone | hmodulus
      · exact hturns hnone
      · -- the type would be empty
        unfold IsCount at hlower
        omega
    · constructor
      · intro hbetween
        rw [← hdecides, hself hbetween]
        exact hbetween
      · intro hexpected
        have haccepted := hdecides.mpr hexpected
        rwa [hexact haccepted] at haccepted
  · rintro ⟨hturns, hbounds⟩
    have hself : lower ≤ Int.bmod number modulus ∧ Int.bmod number modulus ≤ upper →
        Int.bmod number modulus = number := by
      intro hbetween
      obtain ⟨turns, hwrapped⟩ := exists_bmod_eq modulus number
      by_cases hzero : turns = 0
      · rw [hwrapped, hzero]
        omega
      · rw [hwrapped] at hbetween
        exact absurd hbetween (hturns turns hzero)
    refine ⟨?_, hself⟩
    rw [← hbounds]
    constructor
    · intro hbetween
      rwa [hself hbetween] at hbetween
    · intro hbetween
      rwa [bmod_eq_self (isCount_of_between hlower hupper hbetween)]

/-- Wrapping is harmless to a comparison with a bound from below when the number, which is not
negative, is one of the type. -/
theorem lt_bmod_iff (number : ℤ) (hlower : IsCount modulus lower) (hnumber : 0 ≤ number) :
    ((lower < Int.bmod number modulus ↔ lower < number) ∧
        (lower < Int.bmod number modulus → Int.bmod number modulus = number)) ↔
      number * 2 < modulus := by
  have hmodulus : 0 < modulus := by
    unfold IsCount at hlower
    omega
  constructor
  · rintro ⟨hdecides, hexact⟩
    by_contra hlarge
    have hlater : lower < number := by
      unfold IsCount at hlower
      omega
    have hcount := (bmod_eq_self_iff hmodulus).mp (hexact (hdecides.mpr hlater))
    exact hlarge hcount.2
  · intro hsmall
    have hself : Int.bmod number modulus = number := bmod_eq_self ⟨by omega, hsmall⟩
    rw [hself]
    exact ⟨Iff.rfl, fun _ ↦ rfl⟩

end Bounds

end NdnCxx.Wrapped
