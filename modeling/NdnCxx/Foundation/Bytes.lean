import Mathlib.Data.Nat.Basic
import Mathlib.Data.List.Basic
import Mathlib.Order.Defs.LinearOrder
import Mathlib.Tactic.Ring

/-!
# Byte strings

Byte strings with the bytewise comparison of `memcmp` and the fixed-width big-endian numbers found
in network headers. Writing a number and comparing the results bytewise is comparing the numbers,
as long as both are written with the same width.
-/

namespace NdnCxx

abbrev Bytes := List UInt8

namespace Bytes

/-! ## Bytewise comparison -/

def memcmp : Bytes → Bytes → Ordering
  | first :: firsts, second :: seconds =>
      if first < second then .lt else if second < first then .gt else memcmp firsts seconds
  | _, _ => .eq

theorem memcmp_swap (left right : Bytes) : (memcmp left right).swap = memcmp right left := by
  induction left generalizing right with
  | nil => cases right <;> rfl
  | cons first firsts ih =>
    cases right with
    | nil => rfl
    | cons second seconds =>
      simp only [memcmp]
      split_ifs with hlt hgt hgt
      · exact absurd (UInt8.lt_trans hlt hgt) (UInt8.lt_irrefl first)
      · rfl
      · rfl
      · exact ih seconds

theorem eq_of_memcmp_eq {left right : Bytes} (hlength : left.length = right.length)
    (hcmp : memcmp left right = .eq) : left = right := by
  induction left generalizing right with
  | nil => exact (List.length_eq_zero_iff.mp hlength.symm).symm
  | cons first firsts ih =>
    cases right with
    | nil => simp at hlength
    | cons second seconds =>
      simp only [memcmp] at hcmp
      split_ifs at hcmp with hlt hgt
      obtain rfl : first = second :=
        UInt8.le_antisymm (UInt8.not_lt.mp hgt) (UInt8.not_lt.mp hlt)
      rw [ih (by simpa using hlength) hcmp]

@[simp]
theorem memcmp_self (bytes : Bytes) : memcmp bytes bytes = .eq := by
  induction bytes with
  | nil => rfl
  | cons first firsts ih => simpa [memcmp] using ih

theorem memcmp_append_left (front left right : Bytes) :
    memcmp (front ++ left) (front ++ right) = memcmp left right := by
  induction front with
  | nil => rfl
  | cons byte front ih => simpa [memcmp, UInt8.lt_irrefl] using ih

theorem memcmp_lt_trans {left middle right : Bytes} (hfirst : left.length = middle.length)
    (hleft : memcmp left middle = .lt) (hright : memcmp middle right = .lt) :
    memcmp left right = .lt := by
  induction left generalizing middle right with
  | nil => simp [memcmp] at hleft
  | cons first firsts ih =>
    cases middle with
    | nil => simp at hfirst
    | cons second seconds =>
      cases right with
      | nil => simp [memcmp] at hright
      | cons third thirds =>
        have hlength : firsts.length = seconds.length := by simpa using hfirst
        simp only [memcmp, UInt8.lt_iff_toNat_lt] at hleft hright ⊢
        grind

/-! ## Big-endian numbers -/

/-- The number written in big-endian order. -/
def toNumber (bytes : Bytes) : ℕ := bytes.foldl (fun number byte ↦ number * 256 + byte.toNat) 0

/-- The `width` least significant bytes of a number, most significant first. -/
def ofNumber : ℕ → ℕ → Bytes
  | 0, _ => []
  | width + 1, number => UInt8.ofNat (number / 256 ^ width) :: ofNumber width number

@[simp]
theorem length_ofNumber (width number : ℕ) : (ofNumber width number).length = width := by
  induction width with
  | zero => rfl
  | succ width ih => simp [ofNumber, ih]

theorem mod_pow_succ (width number : ℕ) :
    number % 256 ^ (width + 1) =
      number / 256 ^ width % 256 * 256 ^ width + number % 256 ^ width := by
  rw [pow_succ, Nat.mod_mul, Nat.add_comm, Nat.mul_comm]

theorem foldl_ofNumber (width number start : ℕ) :
    (ofNumber width number).foldl (fun number byte ↦ number * 256 + byte.toNat) start =
      start * 256 ^ width + number % 256 ^ width := by
  induction width generalizing start with
  | zero => simp [ofNumber, Nat.mod_one]
  | succ width ih =>
    calc
      _ = (ofNumber width number).foldl (fun number byte ↦ number * 256 + byte.toNat)
          (start * 256 + number / 256 ^ width % 256) := by
        rw [ofNumber, List.foldl_cons, UInt8.toNat_ofNat']
      _ = (start * 256 + number / 256 ^ width % 256) * 256 ^ width + number % 256 ^ width :=
        ih _
      _ = start * 256 ^ (width + 1) +
          (number / 256 ^ width % 256 * 256 ^ width + number % 256 ^ width) := by ring
      _ = _ := by rw [mod_pow_succ]

theorem toNumber_ofNumber {width number : ℕ} (hfits : number < 256 ^ width) :
    toNumber (ofNumber width number) = number := by
  rw [toNumber, foldl_ofNumber, Nat.mod_eq_of_lt hfits]
  simp

/-- Comparing two-digit numbers compares the leading digits first. -/
theorem compare_digits {base high high' low low' : ℕ} (hlow : low < base) (hlow' : low' < base) :
    compare (high * base + low) (high' * base + low') =
      if high < high' then .lt else if high' < high then .gt else compare low low' := by
  split_ifs with hlt hgt
  · have hle : (high + 1) * base ≤ high' * base := Nat.mul_le_mul_right base hlt
    exact compare_lt_iff_lt.mpr (by rw [Nat.add_mul] at hle; omega)
  · have hle : (high' + 1) * base ≤ high * base := Nat.mul_le_mul_right base hgt
    exact compare_gt_iff_gt.mpr (by rw [Nat.add_mul] at hle; omega)
  · obtain rfl : high = high' := by omega
    rcases lt_trichotomy low low' with h | h | h
    · rw [compare_lt_iff_lt.mpr h, compare_lt_iff_lt]; omega
    · simp [h]
    · rw [compare_gt_iff_gt.mpr h, compare_gt_iff_gt]; omega

theorem toNumber_cons (byte : UInt8) (bytes : Bytes) :
    toNumber (byte :: bytes) = byte.toNat * 256 ^ bytes.length + toNumber bytes := by
  have hstart : ∀ start, bytes.foldl (fun number byte ↦ number * 256 + byte.toNat) start =
      start * 256 ^ bytes.length + toNumber bytes := by
    induction bytes with
    | nil => simp [toNumber]
    | cons first bytes ih =>
      intro start
      rw [toNumber, List.foldl_cons, List.foldl_cons, ih, ih (0 * 256 + first.toNat),
        List.length_cons]
      ring
  rw [toNumber, List.foldl_cons, hstart]
  ring

theorem toNumber_lt (bytes : Bytes) : toNumber bytes < 256 ^ bytes.length := by
  induction bytes with
  | nil => simp [toNumber]
  | cons byte bytes ih =>
    have hbyte : byte.toNat * 256 ^ bytes.length ≤ 255 * 256 ^ bytes.length :=
      Nat.mul_le_mul_right _ (Nat.le_of_lt_succ byte.toNat_lt)
    rw [toNumber_cons, List.length_cons, pow_succ]
    omega

/-- Byte strings of one length compare as the numbers they stand for. -/
theorem memcmp_eq_compare {left right : Bytes} (hlength : left.length = right.length) :
    memcmp left right = compare (toNumber left) (toNumber right) := by
  induction left generalizing right with
  | nil =>
    obtain rfl : right = [] := List.length_eq_zero_iff.mp hlength.symm
    rfl
  | cons first firsts ih =>
    cases right with
    | nil => simp at hlength
    | cons second seconds =>
      have htail : firsts.length = seconds.length := by simpa using hlength
      have hfirsts := htail ▸ toNumber_lt firsts
      rw [memcmp, ih htail, toNumber_cons, toNumber_cons, htail,
        compare_digits hfirsts (toNumber_lt seconds)]
      simp only [UInt8.lt_iff_toNat_lt]

/-- Numbers written with one width compare bytewise as they compare numerically. -/
theorem memcmp_ofNumber (width number number' : ℕ) :
    memcmp (ofNumber width number) (ofNumber width number') =
      compare (number % 256 ^ width) (number' % 256 ^ width) := by
  induction width with
  | zero => simp [ofNumber, Nat.mod_one]
  | succ width ih =>
    have hpos : 0 < 256 ^ width := Nat.pow_pos (by decide)
    rw [ofNumber, ofNumber, memcmp, ih, mod_pow_succ, mod_pow_succ,
      compare_digits (Nat.mod_lt _ hpos) (Nat.mod_lt _ hpos)]
    simp only [UInt8.lt_iff_toNat_lt, UInt8.toNat_ofNat', Nat.reducePow]

end Bytes

end NdnCxx
