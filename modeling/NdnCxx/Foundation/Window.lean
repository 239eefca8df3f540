import Mathlib.Data.List.Basic

/-!
# Windows into a buffer

A list that is kept as a window of a larger buffer, with free cells on both sides. Growing the buffer
on either side leaves the content of the window as it is, and writing into free cells next to the
window extends the content on that side. The bounds are part of the structure, so a window never
reaches out of its buffer, and writing requires that enough cells are free.
-/

namespace NdnCxx

/-- A buffer with a window from `first` up to, not including, `last`. -/
structure Window (Cell : Type*) where
  cells : List Cell
  first : ℕ
  last : ℕ
  first_le_last : first ≤ last
  last_le_length : last ≤ cells.length

namespace Window

variable {Cell : Type*}

/-- What the window shows. -/
def content (window : Window Cell) : List Cell :=
  (window.cells.drop window.first).take (window.last - window.first)

theorem length_content (window : Window Cell) :
    window.content.length = window.last - window.first := by
  have hfirst := window.first_le_last
  have hlast := window.last_le_length
  simp only [content, List.length_take, List.length_drop]
  omega

/-- The buffer is what lies in front of the window, the content, and what lies behind. -/
theorem cells_eq (window : Window Cell) :
    window.cells = window.cells.take window.first ++ (window.content ++
      window.cells.drop window.last) := by
  have hdrop : window.cells.drop window.last =
      (window.cells.drop window.first).drop (window.last - window.first) := by
    rw [List.drop_drop, Nat.add_sub_cancel' window.first_le_last]
  rw [content, hdrop, List.take_append_drop, List.take_append_drop]

/-- The content of a window is determined by its place in the buffer. -/
theorem content_eq_of_cells {window : Window Cell} (front : List Cell) {shown : List Cell}
    (back : List Cell) (hcells : window.cells = front ++ (shown ++ back))
    (hfirst : window.first = front.length) (hlast : window.last = front.length + shown.length) :
    window.content = shown := by
  rw [content, hcells, hfirst, hlast, List.drop_left, Nat.add_sub_cancel_left, List.take_left]

def emptyAt (fill : Cell) (size place : ℕ) (hplace : place ≤ size) : Window Cell where
  cells := List.replicate size fill
  first := place
  last := place
  first_le_last := Nat.le_refl place
  last_le_length := by rw [List.length_replicate]; exact hplace

@[simp]
theorem content_emptyAt (fill : Cell) (size place : ℕ) (hplace : place ≤ size) :
    (emptyAt fill size place hplace).content = [] := by
  simp [content, emptyAt]

/-! ## Growing -/

def growFront (fill : Cell) (extra : ℕ) (window : Window Cell) : Window Cell where
  cells := List.replicate extra fill ++ window.cells
  first := window.first + extra
  last := window.last + extra
  first_le_last := Nat.add_le_add_right window.first_le_last extra
  last_le_length := by
    have hlast := window.last_le_length
    rw [List.length_append, List.length_replicate]
    omega

def growBack (fill : Cell) (extra : ℕ) (window : Window Cell) : Window Cell where
  cells := window.cells ++ List.replicate extra fill
  first := window.first
  last := window.last
  first_le_last := window.first_le_last
  last_le_length := by
    have hlast := window.last_le_length
    rw [List.length_append]
    omega

@[simp]
theorem content_growFront (fill : Cell) (extra : ℕ) (window : Window Cell) :
    (window.growFront fill extra).content = window.content := by
  have hlength := window.length_content
  have hfirst := window.first_le_last
  have hlast := window.last_le_length
  apply content_eq_of_cells (List.replicate extra fill ++ window.cells.take window.first)
    (window.cells.drop window.last)
  · rw [List.append_assoc, ← cells_eq]
    rfl
  · simp only [growFront, List.length_append, List.length_replicate, List.length_take]
    omega
  · simp only [growFront, List.length_append, List.length_replicate, List.length_take]
    omega

@[simp]
theorem content_growBack (fill : Cell) (extra : ℕ) (window : Window Cell) :
    (window.growBack fill extra).content = window.content := by
  have hlength := window.length_content
  have hfirst := window.first_le_last
  have hlast := window.last_le_length
  apply content_eq_of_cells (window.cells.take window.first)
    (window.cells.drop window.last ++ List.replicate extra fill)
  · calc window.cells ++ List.replicate extra fill
        = (window.cells.take window.first ++ (window.content ++ window.cells.drop window.last)) ++
            List.replicate extra fill := by rw [← cells_eq]
      _ = _ := by simp only [List.append_assoc]
  · simp only [growBack, List.length_take]
    omega
  · simp only [growBack, List.length_take]
    omega

/-! ## Writing -/

/-- Copy into the free cells directly in front of the window. -/
def writeFront (written : List Cell) (window : Window Cell)
    (hfree : written.length ≤ window.first) : Window Cell where
  cells := window.cells.take (window.first - written.length) ++
    (written ++ window.cells.drop window.first)
  first := window.first - written.length
  last := window.last
  first_le_last := Nat.le_trans (Nat.sub_le _ _) window.first_le_last
  last_le_length := by
    have hfirst := window.first_le_last
    have hlast := window.last_le_length
    simp only [List.length_append, List.length_take, List.length_drop]
    omega

/-- Copy into the free cells directly behind the window. -/
def writeBack (written : List Cell) (window : Window Cell)
    (hfree : window.last + written.length ≤ window.cells.length) : Window Cell where
  cells := window.cells.take window.last ++
    (written ++ window.cells.drop (window.last + written.length))
  first := window.first
  last := window.last + written.length
  first_le_last := Nat.le_trans window.first_le_last (Nat.le_add_right _ _)
  last_le_length := by
    simp only [List.length_append, List.length_take, List.length_drop]
    omega

@[simp]
theorem content_writeFront (written : List Cell) (window : Window Cell)
    (hfree : written.length ≤ window.first) :
    (window.writeFront written hfree).content = written ++ window.content := by
  have hlength := window.length_content
  have hfirst := window.first_le_last
  have hlast := window.last_le_length
  have hdrop : window.cells.drop window.first = window.content ++ window.cells.drop window.last := by
    nth_rewrite 1 [cells_eq window]
    apply List.drop_left'
    rw [List.length_take]
    omega
  apply content_eq_of_cells (window.cells.take (window.first - written.length))
    (window.cells.drop window.last)
  · rw [List.append_assoc, ← hdrop]
    rfl
  · simp only [writeFront, List.length_take]
    omega
  · simp only [writeFront, List.length_append, List.length_take]
    omega

@[simp]
theorem content_writeBack (written : List Cell) (window : Window Cell)
    (hfree : window.last + written.length ≤ window.cells.length) :
    (window.writeBack written hfree).content = window.content ++ written := by
  have hlength := window.length_content
  have hfirst := window.first_le_last
  have htake : window.cells.take window.last = window.cells.take window.first ++ window.content := by
    nth_rewrite 1 [cells_eq window]
    rw [← List.append_assoc]
    apply List.take_left'
    rw [List.length_append, List.length_take]
    omega
  apply content_eq_of_cells (window.cells.take window.first)
    (window.cells.drop (window.last + written.length))
  · rw [List.append_assoc, ← List.append_assoc, ← htake]
    rfl
  · simp only [writeBack, List.length_take]
    omega
  · simp only [writeBack, List.length_append, List.length_take]
    omega

end Window

end NdnCxx
