import Mathlib.Data.List.Basic

/-!
# Buffers that are shared

A store of buffers, and slices that refer to cells of one of them. Slices are values and can be
copied, the cells are not: overwriting a slice is seen through every slice that has some of these
cells. Buffers are never removed, so allocating one changes nothing that a slice refers to.
-/

namespace NdnCxx

/-- The cells of a buffer from `first` up to, not including, `last`. -/
structure Slice where
  buffer : ℕ
  first : ℕ
  last : ℕ
  deriving DecidableEq, Repr

/-- One slice lies inside another. -/
structure Slice.IsWithin (slice outer : Slice) : Prop where
  buffer : slice.buffer = outer.buffer
  first : outer.first ≤ slice.first
  last : slice.last ≤ outer.last

theorem Slice.IsWithin.trans {slice middle outer : Slice} (hslice : slice.IsWithin middle)
    (hmiddle : middle.IsWithin outer) : slice.IsWithin outer :=
  ⟨hslice.buffer.trans hmiddle.buffer, Nat.le_trans hmiddle.first hslice.first,
    Nat.le_trans hslice.last hmiddle.last⟩

instance (slice outer : Slice) : Decidable (slice.IsWithin outer) :=
  decidable_of_iff (slice.buffer = outer.buffer ∧ outer.first ≤ slice.first ∧
      slice.last ≤ outer.last)
    ⟨fun hwithin ↦ ⟨hwithin.1, hwithin.2.1, hwithin.2.2⟩,
      fun hwithin ↦ ⟨hwithin.buffer, hwithin.first, hwithin.last⟩⟩

/-- The slices have no cell in common. -/
def Slice.IsApart (slice other : Slice) : Prop :=
  slice.buffer = other.buffer → slice.last ≤ other.first ∨ other.last ≤ slice.first

/-- The buffers, in the order of their allocation. -/
structure BufferStore (Cell : Type*) where
  buffers : List (List Cell)
  deriving DecidableEq

namespace BufferStore

variable {Cell : Type*}

def buffer (store : BufferStore Cell) (index : ℕ) : List Cell := (store.buffers[index]?).getD []

/-- What a slice shows. -/
def content (store : BufferStore Cell) (slice : Slice) : List Cell :=
  ((store.buffer slice.buffer).take slice.last).drop slice.first

/-- The slice refers to cells that are there. -/
structure Holds (store : BufferStore Cell) (slice : Slice) : Prop where
  buffer : slice.buffer < store.buffers.length
  first : slice.first ≤ slice.last
  last : slice.last ≤ (store.buffer slice.buffer).length

instance (store : BufferStore Cell) (slice : Slice) : Decidable (store.Holds slice) :=
  decidable_of_iff (slice.buffer < store.buffers.length ∧ slice.first ≤ slice.last ∧
      slice.last ≤ (store.buffer slice.buffer).length)
    ⟨fun hholds ↦ ⟨hholds.1, hholds.2.1, hholds.2.2⟩,
      fun hholds ↦ ⟨hholds.buffer, hholds.first, hholds.last⟩⟩

variable {store : BufferStore Cell} {slice target outer : Slice} {cells : List Cell}

theorem length_content (hholds : store.Holds slice) :
    (store.content slice).length = slice.last - slice.first := by
  have hlast := hholds.last
  rw [content, List.length_drop, List.length_take]
  omega

theorem getElem?_content (store : BufferStore Cell) (slice : Slice) (offset : ℕ) :
    (store.content slice)[offset]? =
      if slice.first + offset < slice.last then (store.buffer slice.buffer)[slice.first + offset]?
      else none := by
  rw [content, List.getElem?_drop, List.getElem?_take]

theorem Holds.of_isWithin (hholds : store.Holds outer) (hwithin : slice.IsWithin outer)
    (hordered : slice.first ≤ slice.last) : store.Holds slice where
  buffer := hwithin.buffer ▸ hholds.buffer
  first := hordered
  last := by
    rw [hwithin.buffer]
    exact Nat.le_trans hwithin.last hholds.last

/-- What a slice inside another shows is part of what that shows. -/
theorem content_of_isWithin (store : BufferStore Cell) (hwithin : slice.IsWithin outer) :
    store.content slice =
      ((store.content outer).take (slice.last - outer.first)).drop (slice.first - outer.first) := by
  have hfirst := hwithin.first
  have hlast := hwithin.last
  apply List.ext_getElem?
  intro offset
  rw [List.getElem?_drop, List.getElem?_take, getElem?_content, getElem?_content, hwithin.buffer]
  have hplace : outer.first + (slice.first - outer.first + offset) = slice.first + offset := by omega
  rw [hplace]
  split_ifs
  · rfl
  · omega
  · omega
  · omega
  · rfl
  · rfl

/-- A part of what a slice shows, as a slice of its own. -/
theorem content_part (before after : List Cell) {shown : List Cell} (hholds : store.Holds outer)
    (hcontent : store.content outer = before ++ (shown ++ after)) {first last : ℕ}
    (hfirst : first = outer.first + before.length) (hlast : last = first + shown.length) :
    store.content ⟨outer.buffer, first, last⟩ = shown := by
  have hcount := length_content hholds
  have houter := hholds.first
  rw [hcontent] at hcount
  simp only [List.length_append] at hcount
  have hwithin : Slice.IsWithin ⟨outer.buffer, first, last⟩ outer := by
    refine ⟨rfl, ?_, ?_⟩
    · simp only [hfirst]
      omega
    · simp only [hlast, hfirst]
      omega
  have htake : last - outer.first = before.length + shown.length := by omega
  have hdrop : first - outer.first = before.length := by omega
  rw [content_of_isWithin store hwithin, hcontent]
  simp only [htake, hdrop]
  rw [← List.append_assoc, List.take_left' (by simp), List.drop_left' rfl]

def KeepsSlices (store later : BufferStore Cell) : Prop :=
  ∀ slice, store.Holds slice → later.Holds slice

/-! ## Allocating -/

def allocate (store : BufferStore Cell) (cells : List Cell) : BufferStore Cell :=
  ⟨store.buffers ++ [cells]⟩

def next (store : BufferStore Cell) : ℕ := store.buffers.length

/-- Some buffers were allocated, and none was changed. -/
def Extends (store later : BufferStore Cell) : Prop := store.buffers <+: later.buffers

theorem Extends.refl (store : BufferStore Cell) : store.Extends store := List.prefix_rfl

variable {later : BufferStore Cell}

theorem Extends.trans {latest : BufferStore Cell} (hlater : store.Extends later)
    (hlatest : later.Extends latest) : store.Extends latest := List.IsPrefix.trans hlater hlatest

theorem extends_allocate (store : BufferStore Cell) (cells : List Cell) :
    store.Extends (store.allocate cells) := List.prefix_append _ _

section

variable (hextends : store.Extends later)
include hextends

theorem Extends.buffer_eq {index : ℕ} (hindex : index < store.buffers.length) :
    later.buffer index = store.buffer index := by
  obtain ⟨added, hadded⟩ := hextends
  rw [buffer, buffer, ← hadded, List.getElem?_append_left hindex]

theorem Extends.content_eq (hholds : store.Holds slice) :
    later.content slice = store.content slice := by
  rw [content, content, hextends.buffer_eq hholds.buffer]

theorem Extends.holds (hholds : store.Holds slice) :
    later.Holds slice where
  buffer := Nat.lt_of_lt_of_le hholds.buffer hextends.length_le
  first := hholds.first
  last := by
    rw [hextends.buffer_eq hholds.buffer]
    exact hholds.last

theorem Extends.keepsSlices : store.KeepsSlices later := fun _ hholds ↦ hextends.holds hholds

end

theorem buffer_allocate (store : BufferStore Cell) (cells : List Cell) :
    (store.allocate cells).buffer store.next = cells := by
  simp [buffer, allocate, next]

theorem holds_allocate (store : BufferStore Cell) (cells : List Cell) :
    (store.allocate cells).Holds ⟨store.next, 0, cells.length⟩ where
  buffer := by simp [allocate, next]
  first := Nat.zero_le _
  last := by simp [buffer_allocate]

theorem content_allocate (store : BufferStore Cell) (cells : List Cell) (first last : ℕ) :
    (store.allocate cells).content ⟨store.next, first, last⟩ = (cells.take last).drop first := by
  rw [content, buffer_allocate]

/-! ## Overwriting -/

/-- Put cells in place of those from the start of the slice on. -/
def overwrite (store : BufferStore Cell) (target : Slice) (cells : List Cell) : BufferStore Cell :=
  ⟨store.buffers.modify target.buffer fun old ↦
    old.take target.first ++ (cells ++ old.drop (target.first + cells.length))⟩

/-- The cells of the target that the slice has too keep their values. -/
def Spares (store : BufferStore Cell) (target : Slice) (cells : List Cell) (slice : Slice) : Prop :=
  target.buffer = slice.buffer → ∀ position, slice.first ≤ position → position < slice.last →
    target.first ≤ position → position < target.last →
      cells[position - target.first]? = (store.buffer target.buffer)[position]?

section Overwrite

variable (htarget : store.Holds target) (hlength : cells.length = target.last - target.first)
include htarget hlength

theorem buffer_overwrite (index : ℕ) :
    (store.overwrite target cells).buffer index =
      if index = target.buffer then
        (store.buffer target.buffer).take target.first ++
          (cells ++ (store.buffer target.buffer).drop target.last)
      else store.buffer index := by
  have hfirst := htarget.first
  have hlast : target.first + cells.length = target.last := by omega
  rw [buffer, overwrite, hlast]
  split_ifs with hindex
  · subst hindex
    rw [List.getElem?_modify_eq, buffer, List.getElem?_eq_getElem htarget.buffer]
    rfl
  · simp [Ne.symm hindex, buffer]

theorem length_buffer_overwrite (index : ℕ) :
    ((store.overwrite target cells).buffer index).length = (store.buffer index).length := by
  have hfirst := htarget.first
  have hlast := htarget.last
  rw [buffer_overwrite htarget hlength]
  split_ifs with hindex
  · rw [hindex]
    simp only [List.length_append, List.length_take, List.length_drop]
    omega
  · rfl

theorem holds_overwrite (hholds : store.Holds slice) :
    (store.overwrite target cells).Holds slice where
  buffer := by
    rw [overwrite, List.length_modify]
    exact hholds.buffer
  first := hholds.first
  last := by
    rw [length_buffer_overwrite htarget hlength]
    exact hholds.last

theorem getElem?_buffer_overwrite (position : ℕ) :
    ((store.overwrite target cells).buffer target.buffer)[position]? =
      if target.first ≤ position ∧ position < target.last then cells[position - target.first]?
      else (store.buffer target.buffer)[position]? := by
  have hfirst := htarget.first
  have hlast := htarget.last
  rw [buffer_overwrite htarget hlength, if_pos rfl]
  have htake : ((store.buffer target.buffer).take target.first).length = target.first := by
    rw [List.length_take]
    omega
  by_cases hbefore : position < target.first
  · rw [if_neg (by omega), List.getElem?_append_left (by omega), List.getElem?_take, if_pos hbefore]
  · rw [List.getElem?_append_right (by omega), htake]
    by_cases hwithin : position < target.last
    · rw [if_pos (by omega), List.getElem?_append_left (by omega)]
    · rw [if_neg (by omega), List.getElem?_append_right (by omega), List.getElem?_drop]
      congr 1
      omega

/-- A slice shows the same as before just if the cells that it shares with the target keep their
values. -/
theorem content_overwrite_eq_iff (hholds : store.Holds slice) :
    (store.overwrite target cells).content slice = store.content slice ↔
      store.Spares target cells slice := by
  have hlast := hholds.last
  by_cases hbuffer : target.buffer = slice.buffer
  · constructor
    · intro hsame _ position hfirst hposition htargetFirst htargetLast
      have hcell := congrArg (fun shown ↦ shown[position - slice.first]?) hsame
      have hplace : slice.first + (position - slice.first) = position := by omega
      simp only [getElem?_content, hplace, if_pos hposition, ← hbuffer,
        getElem?_buffer_overwrite htarget hlength, if_pos (And.intro htargetFirst htargetLast)]
        at hcell
      exact hcell
    · intro hspares
      apply List.ext_getElem?
      intro offset
      rw [getElem?_content, getElem?_content]
      split_ifs with hposition
      · rw [← hbuffer, getElem?_buffer_overwrite htarget hlength]
        split_ifs with htargetRange
        · exact hspares hbuffer _ (Nat.le_add_right _ _) hposition htargetRange.1 htargetRange.2
        · rfl
      · rfl
  · apply iff_of_true
    · rw [content, content, buffer_overwrite htarget hlength, if_neg (Ne.symm hbuffer)]
    · intro hsame
      exact absurd hsame hbuffer

theorem content_overwrite_self : (store.overwrite target cells).content target = cells := by
  have hfirst := htarget.first
  apply List.ext_getElem?
  intro offset
  rw [getElem?_content]
  split_ifs with hposition
  · rw [getElem?_buffer_overwrite htarget hlength, if_pos ⟨Nat.le_add_right _ _, hposition⟩,
      Nat.add_sub_cancel_left]
  · rw [List.getElem?_eq_none (by omega)]

/-- A slice around the target shows the cells that were written, and the rest as before. -/
theorem content_overwrite_of_isWithin (hholds : store.Holds outer) (hwithin : target.IsWithin outer) :
    (store.overwrite target cells).content outer =
      (store.content outer).take (target.first - outer.first) ++
        (cells ++ (store.content outer).drop (target.last - outer.first)) := by
  have hfirst := hwithin.first
  have hlast := hwithin.last
  have hordered := htarget.first
  have hshown : ((store.content outer).take (target.first - outer.first)).length =
      target.first - outer.first := by
    rw [List.length_take, length_content hholds]
    omega
  apply List.ext_getElem?
  intro offset
  rw [getElem?_content, ← hwithin.buffer, getElem?_buffer_overwrite htarget hlength]
  by_cases hbefore : outer.first + offset < target.first
  · rw [List.getElem?_append_left (by omega), List.getElem?_take, getElem?_content,
      if_pos (by omega), if_neg (by omega), if_pos (by omega), if_pos (by omega), hwithin.buffer]
  · rw [List.getElem?_append_right (by omega), hshown]
    by_cases hinside : outer.first + offset < target.last
    · rw [List.getElem?_append_left (by omega), if_pos (by omega), if_pos (by omega)]
      congr 1
      omega
    · have hplace : outer.first + (target.last - outer.first +
          (offset - (target.first - outer.first) - cells.length)) = outer.first + offset := by omega
      have houtside : ¬ (target.first ≤ outer.first + offset ∧ outer.first + offset < target.last) := by
        omega
      rw [List.getElem?_append_right (by omega), List.getElem?_drop, getElem?_content, hplace,
        if_neg houtside, hwithin.buffer]

end Overwrite

/-- Slices of different buffers, and slices side by side, are spared whatever is written. -/
theorem spares_of_isApart (hapart : target.IsApart slice) : store.Spares target cells slice := by
  intro hbuffer position hfirst hlast htargetFirst htargetLast
  have hdisjoint := hapart hbuffer
  omega

end BufferStore

end NdnCxx
