import Mathlib.Data.List.Basic
import Mathlib.Algebra.Order.Group.Nat
import Mathlib.Algebra.Order.Ring.Nat

/-!
# Segments of bounded length

A list is cut into full segments of one length and a last segment that is no longer. The last
segment is begun only when there is something to put into it, so that the number of segments follows
from the length of the list.
-/

namespace NdnCxx

variable {Item : Type*}

/-- The full segments and the last one make up the whole list. -/
structure Segmentation (limit : ℕ) (full : List (List Item)) (last whole : List Item) : Prop where
  joined : full.flatten ++ last = whole
  isFull : ∀ segment ∈ full, segment.length = limit
  fits : last.length ≤ limit

namespace Segmentation

variable {limit : ℕ} {full : List (List Item)} {last more whole : List Item}

theorem empty : Segmentation limit [] ([] : List Item) [] := ⟨rfl, by simp, by simp⟩

/-- What fits is added to the last segment. -/
theorem extend (hsegments : Segmentation limit full last whole)
    (hfits : last.length + more.length ≤ limit) :
    Segmentation limit full (last ++ more) (whole ++ more) where
  joined := by rw [← hsegments.joined, List.append_assoc]
  isFull := hsegments.isFull
  fits := by simpa using hfits

/-- A last segment that is full makes room for a new one. -/
theorem flush (hsegments : Segmentation limit full last whole) (hlast : last.length = limit) :
    Segmentation limit (full ++ [last]) [] whole where
  joined := by simpa using hsegments.joined
  isFull := by
    intro segment hmem
    rcases List.mem_append.mp hmem with hfull | hnew
    · exact hsegments.isFull segment hfull
    · rwa [List.mem_singleton.mp hnew]
  fits := by simp

theorem length_flatten (hfull : ∀ segment ∈ full, segment.length = limit) :
    full.flatten.length = full.length * limit := by
  induction full with
  | nil => simp
  | cons segment rest ih =>
    have hhead := hfull segment List.mem_cons_self
    have htail := ih fun other hother ↦ hfull other (List.mem_cons_of_mem _ hother)
    rw [List.flatten_cons, List.length_append, hhead, htail, List.length_cons, Nat.succ_mul,
      Nat.add_comm]

section

variable (hsegments : Segmentation limit full last whole)
include hsegments

theorem length_whole : whole.length = full.length * limit + last.length := by
  rw [← hsegments.joined, List.length_append, length_flatten hsegments.isFull]

/-- With a last segment that is not empty, the number of full segments is bounded by the length. -/
theorem length_full_lt {count : ℕ} (hbegun : full ≠ [] → last ≠ []) (hcount : 0 < count)
    (hwhole : whole.length ≤ limit * count) : full.length < count := by
  rcases List.eq_nil_or_concat full with rfl | ⟨front, segment, rfl⟩
  · simpa using hcount
  · have hlast := List.length_pos_of_ne_nil (hbegun (by simp))
    have hlength := hsegments.length_whole
    by_contra hge
    have hmany := Nat.mul_le_mul_left limit (Nat.not_lt.mp hge)
    rw [Nat.mul_comm limit (List.length _)] at hmany
    omega

theorem length_le : whole.length ≤ limit * (full.length + 1) := by
  have hlength := hsegments.length_whole
  have hfits := hsegments.fits
  rw [Nat.mul_succ, Nat.mul_comm limit]
  omega

end

end Segmentation

end NdnCxx
