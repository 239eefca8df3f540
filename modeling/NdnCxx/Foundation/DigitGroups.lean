import Mathlib.Algebra.Group.Nat.Defs
import Mathlib.Data.List.Basic
import Mathlib.Data.Nat.Basic

/-!
# Numbers in groups of digits

A number is written as its digits, most significant first, and every digit but the last is marked as
being continued. A reader puts the digits together and refuses to go on once the number it has got so
far reaches a limit. It reads back what was written of every number that stays below the limit
without its last digit, and takes exactly the items that it counts.
-/

namespace NdnCxx.DigitGroups

variable {Item : Type*}

/-- The digits of a number behind its first ones, from the given place down, each made into an item. -/
def write (base : ℕ) (make : ℕ → Bool → Item) (value : ℕ) : ℕ → List Item
  | 0 => [make (value % base) false]
  | place + 1 => make (value / base ^ (place + 1) % base) true :: write base make value place

/-- Read a number, with the count of the items and what comes behind them. -/
def read (base limit : ℕ) (digit : Item → ℕ) (isContinued : Item → Bool) (value count : ℕ) :
    List Item → Option (ℕ × ℕ × List Item)
  | [] => none
  | item :: items =>
      if limit ≤ value then none
      else if isContinued item then
        read base limit digit isContinued (value * base + digit item) (count + 1) items
      else some (value * base + digit item, count + 1, items)

variable {base limit : ℕ} {digit : Item → ℕ} {isContinued : Item → Bool}

theorem length_write (make : ℕ → Bool → Item) (value place : ℕ) :
    (write base make value place).length = place + 1 := by
  induction place with
  | zero => rfl
  | succ place ih => rw [write, List.length_cons, ih]

/-- The reader takes the items it counts. -/
theorem eq_drop_of_read {items rest : List Item} {value count result total : ℕ}
    (hread : read base limit digit isContinued value count items = some (result, total, rest)) :
    count < total ∧ total - count ≤ items.length ∧ rest = items.drop (total - count) := by
  induction items generalizing value count with
  | nil => cases hread
  | cons item items ih =>
    rw [read] at hread
    split_ifs at hread
    · obtain ⟨hcount, hlength, hrest⟩ := ih hread
      refine ⟨by omega, by rw [List.length_cons]; omega, ?_⟩
      rw [hrest, show total - count = total - (count + 1) + 1 by omega, List.drop_succ_cons]
    · simp only [Option.some.injEq, Prod.mk.injEq] at hread
      obtain ⟨-, rfl, rfl⟩ := hread
      refine ⟨by omega, by rw [List.length_cons]; omega, ?_⟩
      rw [show count + 1 - count = 1 by omega]
      rfl

/-- What has been read before the digit at a place is the number without the digits from there on. -/
theorem read_write {make : ℕ → Bool → Item}
    (hdigit : ∀ number < base, ∀ continued, digit (make number continued) = number)
    (hcontinued : ∀ number < base, ∀ continued,
      isContinued (make number continued) = continued)
    (hbase : 0 < base) {value : ℕ} (hlimit : value / base < limit) (place count : ℕ)
    (rest : List Item) :
    read base limit digit isContinued (value / base ^ (place + 1)) count
        (write base make value place ++ rest) = some (value, count + (place + 1), rest) := by
  have hbelow (place : ℕ) : ¬limit ≤ value / base ^ (place + 1) := by
    have hle : value / base ^ (place + 1) ≤ value / base := by
      rw [Nat.pow_succ', ← Nat.div_div_eq_div_mul]
      exact Nat.div_le_self _ _
    omega
  have hjoin (place : ℕ) : value / base ^ (place + 1) * base + value / base ^ place % base =
      value / base ^ place := by
    rw [Nat.pow_succ, ← Nat.div_div_eq_div_mul]
    exact Nat.div_add_mod' _ _
  induction place generalizing count with
  | zero =>
    have hlast := hjoin 0
    rw [Nat.pow_zero, Nat.div_one] at hlast
    rw [write, List.singleton_append, read, if_neg (hbelow 0),
      hcontinued _ (Nat.mod_lt _ hbase), hdigit _ (Nat.mod_lt _ hbase), if_neg (by simp), hlast]
  | succ place ih =>
    rw [write, List.cons_append, read, if_neg (hbelow (place + 1)),
      hcontinued _ (Nat.mod_lt _ hbase), hdigit _ (Nat.mod_lt _ hbase), if_pos rfl,
      hjoin (place + 1), ih]
    congr 3
    omega

end NdnCxx.DigitGroups
