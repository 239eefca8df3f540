import NdnCxx.Foundation.OrderedMap
import Mathlib.Order.Interval.Set.Basic

/-!
# Sets given by flagged boundaries

A subset of a linear order described by finitely many boundaries, each with a flag. A boundary is
itself in the set, and a flagged boundary also covers everything above it up to the next boundary.
The boundaries are held in descending order, so the lower bound of a point is the greatest boundary
not above it.

The three updates below add a point, a closed interval and an upper half-line to the covered set.
They are stated through the boundaries that the updated container holds, so any implementation that
leaves those boundaries is covered by them.
-/

namespace NdnCxx

abbrev BoundaryMap (Point : Type*) [LinearOrder Point] :=
  OrderedMap Point Bool fun first second ↦ second < first

namespace BoundaryMap

variable {Point : Type*} [LinearOrder Point] {boundaries updated : BoundaryMap Point}
    {point : Point} {boundary : Point × Bool}

/-- The lower bound is the greatest boundary not above the point. -/
theorem lowerBound_eq_some :
    boundaries.lowerBound point = some boundary ↔
      boundary ∈ boundaries ∧ boundary.1 ≤ point ∧
        ∀ other ∈ boundaries, other.1 ≤ point → other.1 ≤ boundary.1 := by
  simp only [OrderedMap.lowerBound_eq_some_iff, not_lt]

theorem lowerBound_eq_none :
    boundaries.lowerBound point = none ↔ ∀ boundary ∈ boundaries, point < boundary.1 :=
  OrderedMap.lowerBound_eq_none_iff

/-- The set described by the boundaries. -/
def Covers (boundaries : BoundaryMap Point) (point : Point) : Prop :=
  ∃ boundary, boundaries.lowerBound point = some boundary ∧
    (boundary.2 = true ∨ boundary.1 = point)

theorem covers_iff :
    Covers boundaries point ↔
      ∃ boundary ∈ boundaries, boundary.1 ≤ point ∧
        (∀ other ∈ boundaries, other.1 ≤ point → other.1 ≤ boundary.1) ∧
        (boundary.2 = true ∨ boundary.1 = point) := by
  simp only [Covers, lowerBound_eq_some, and_assoc]

/-- A boundary is covered whatever its flag. -/
theorem covers_of_mem (hmem : boundary ∈ boundaries) : Covers boundaries boundary.1 :=
  covers_iff.mpr ⟨boundary, hmem, le_rfl, fun _ _ hle ↦ hle, Or.inr rfl⟩

/-- What is covered at a point depends only on the boundaries not above it. -/
theorem covers_congr (hsame : ∀ boundary : Point × Bool, boundary.1 ≤ point →
      (boundary ∈ updated ↔ boundary ∈ boundaries)) :
    Covers updated point ↔ Covers boundaries point := by
  rw [covers_iff, covers_iff]
  constructor
  all_goals
    rintro ⟨boundary, hmem, hle, hgreatest, hcovers⟩
    refine ⟨boundary, ?_, hle, fun other hother hotherLe ↦ hgreatest other ?_ hotherLe, hcovers⟩
    · grind
    · grind

/-- With no boundary strictly between, two points have the same lower bound. -/
theorem lowerBound_eq_of_gap {low high : Point} (hle : low ≤ high)
    (hgap : ∀ boundary ∈ boundaries, boundary.1 ≤ high → boundary.1 ≤ low) :
    boundaries.lowerBound high = boundaries.lowerBound low := by
  apply Option.ext
  intro boundary
  rw [lowerBound_eq_some, lowerBound_eq_some]
  constructor
  · rintro ⟨hmem, hhigh, hgreatest⟩
    exact ⟨hmem, hgap boundary hmem hhigh, fun other hother hlow ↦
      hgreatest other hother (hlow.trans hle)⟩
  · rintro ⟨hmem, hlow, hgreatest⟩
    exact ⟨hmem, hlow.trans hle, fun other hother hhigh ↦
      hgreatest other hother (hgap other hother hhigh)⟩

/-- Above a boundary that is not flagged, nothing is covered before the next boundary. -/
theorem not_covers_of_gap {low high : Point} (hlt : low < high)
    (hgap : ∀ boundary ∈ boundaries, boundary.1 ≤ high → boundary.1 ≤ low)
    (hflag : ∀ boundary, boundaries.lowerBound low = some boundary → boundary.2 = false) :
    ¬ Covers boundaries high := by
  rintro ⟨boundary, hbound, hcovers⟩
  rw [lowerBound_eq_of_gap hlt.le hgap] at hbound
  have hlow := (lowerBound_eq_some.mp hbound).2.1
  rcases hcovers with hflagged | rfl
  · simp [hflag boundary hbound] at hflagged
  · exact absurd hlow (not_le.mpr hlt)

/-- Above a flagged boundary, everything is covered up to the next boundary. -/
theorem covers_of_flagged {low high : Point} (hle : low ≤ high)
    (hgap : ∀ boundary ∈ boundaries, boundary.1 ≤ high → boundary.1 ≤ low)
    (hflag : ∃ boundary, boundaries.lowerBound low = some boundary ∧ boundary.2 = true) :
    Covers boundaries high := by
  obtain ⟨boundary, hbound, hflagged⟩ := hflag
  exact ⟨boundary, (lowerBound_eq_of_gap hle hgap).trans hbound, Or.inl hflagged⟩

/-! ## Adding one point -/

/-- Inserting an unflagged boundary at an uncovered point adds exactly that point. -/
theorem covers_insert_iff {added : Point} (huncovered : ¬ Covers boundaries added) :
    Covers (boundaries.insert added false) point ↔ Covers boundaries point ∨ point = added := by
  have habsent : ∀ old ∈ boundaries, old.1 ≠ added :=
    fun old hold hkey ↦ huncovered (hkey ▸ covers_of_mem hold)
  have hmem (boundary : Point × Bool) : boundary ∈ boundaries.insert added false ↔
      boundary ∈ boundaries ∨ boundary = (added, false) := by
    rw [OrderedMap.mem_insert]
    exact or_congr_right (and_iff_left habsent)
  rcases lt_trichotomy point added with hlt | rfl | hgt
  · have hsame : Covers (boundaries.insert added false) point ↔ Covers boundaries point :=
      covers_congr fun boundary hle ↦ by rw [hmem]; grind
    simp [hsame, hlt.ne]
  · simpa using covers_of_mem ((hmem (point, false)).mpr (Or.inr rfl))
  · rw [or_iff_left hgt.ne']
    by_cases hgap : ∀ boundary ∈ boundaries, boundary.1 ≤ point → boundary.1 ≤ added
    · -- nothing separates the point from the added one: neither container covers it
      have hafter : ¬ Covers (boundaries.insert added false) point := by
        refine not_covers_of_gap hgt (fun boundary hin hle ↦ ?_) (fun boundary hbound ↦ ?_)
        · rcases (hmem boundary).mp hin with hold | rfl
          · exact hgap boundary hold hle
          · exact le_rfl
        · have hbound := lowerBound_eq_some.mp hbound
          have hnew := hbound.2.2 (added, false) ((hmem _).mpr (Or.inr rfl)) le_rfl
          have hkey : boundary.1 = added := le_antisymm hbound.2.1 hnew
          rcases (hmem boundary).mp hbound.1 with hold | rfl
          · exact absurd hkey (habsent boundary hold)
          · rfl
      have hbefore : ¬ Covers boundaries point := by
        refine not_covers_of_gap hgt hgap (fun boundary hbound ↦ ?_)
        by_contra hflag
        exact huncovered ⟨boundary, hbound, Or.inl (by simpa using hflag)⟩
      exact iff_of_false hafter hbefore
    · -- a boundary in between hides the added one
      push Not at hgap
      obtain ⟨between, hbetween, hle, hlt⟩ := hgap
      rw [covers_iff, covers_iff]
      grind

/-! ## Adding an interval -/

/-- A flagged boundary at `low` followed by no boundary up to `high`, except possibly an unflagged
one at `high` itself, adds the closed interval. The unflagged end must be present exactly when the
stretch after `high` was not covered before. -/
theorem covers_span_iff (boundaries : BoundaryMap Point) (low high : Point)
    (hlow : (low, true) ∈ updated) (hbelow : ∀ boundary : Point × Bool, boundary.1 < low →
      (boundary ∈ updated ↔ boundary ∈ boundaries))
    (habove : ∀ boundary : Point × Bool, high < boundary.1 →
      (boundary ∈ updated ↔ boundary ∈ boundaries))
    (hinside : ∀ boundary ∈ updated, low < boundary.1 → boundary.1 ≤ high →
      boundary = (high, false)) (hend : ∀ beyond, high < beyond →
      (∀ boundary ∈ boundaries, boundary.1 ≤ beyond → boundary.1 ≤ high) →
      (Covers boundaries beyond ↔ (high, false) ∉ updated)) :
    Covers updated point ↔ Covers boundaries point ∨ low ≤ point ∧ point ≤ high := by
  have hboundLow : updated.lowerBound low = some (low, true) :=
    lowerBound_eq_some.mpr ⟨hlow, le_rfl, fun _ _ hle ↦ hle⟩
  by_cases hbefore : point < low
  · have hsame : Covers updated point ↔ Covers boundaries point :=
      covers_congr fun boundary hle ↦ hbelow boundary (hle.trans_lt hbefore)
    simp [hsame, hbefore.not_ge]
  have hlowPoint : low ≤ point := not_lt.mp hbefore
  rcases le_or_gt point high with hpoint | hpoint
  · refine iff_of_true ?_ (Or.inr ⟨hlowPoint, hpoint⟩)
    by_cases hatEnd : point = high ∧ (high, false) ∈ updated
    · exact hatEnd.1 ▸ covers_of_mem hatEnd.2
    · refine covers_of_flagged hlowPoint (fun boundary hin hle ↦ ?_) ⟨_, hboundLow, rfl⟩
      by_contra hgt
      obtain rfl := hinside boundary hin (not_le.mp hgt) (hle.trans hpoint)
      exact hatEnd ⟨le_antisymm hpoint hle, hin⟩
  · rw [or_iff_left (fun h ↦ hpoint.not_ge h.2)]
    by_cases hgap : ∀ boundary ∈ boundaries, boundary.1 ≤ point → boundary.1 ≤ high
    · rw [hend point hpoint hgap]
      have hgapUpdated : ∀ boundary ∈ updated, boundary.1 ≤ point → boundary.1 ≤ high := by
        intro boundary hin hle
        by_contra hgt
        exact hgt (hgap boundary ((habove boundary (not_le.mp hgt)).mp hin) hle)
      by_cases hclosed : (high, false) ∈ updated
      · refine iff_of_false (not_covers_of_gap hpoint hgapUpdated fun boundary hbound ↦ ?_)
          (not_not.mpr hclosed)
        have hboundHigh : updated.lowerBound high = some (high, false) :=
          lowerBound_eq_some.mpr ⟨hclosed, le_rfl, fun _ _ hle ↦ hle⟩
        rw [hboundHigh] at hbound
        simp [← Option.some.inj hbound]
      · refine iff_of_true (covers_of_flagged hlowPoint (fun boundary hin hle ↦ ?_)
          ⟨_, hboundLow, rfl⟩) hclosed
        by_contra hgt
        obtain rfl := hinside boundary hin (not_le.mp hgt) (hgapUpdated boundary hin hle)
        exact hclosed hin
    · push Not at hgap
      obtain ⟨between, hbetween, hle, hgt⟩ := hgap
      rw [covers_iff, covers_iff]
      grind

/-- A flagged boundary at `low` with no boundary above it adds the half-line. -/
theorem covers_halfLine_iff (boundaries updated : BoundaryMap Point) {low : Point} (point : Point)
    (hlow : (low, true) ∈ updated)
    (hbelow : ∀ boundary : Point × Bool, boundary.1 < low →
      (boundary ∈ updated ↔ boundary ∈ boundaries))
    (habove : ∀ boundary ∈ updated, boundary.1 ≤ low) :
    Covers updated point ↔ Covers boundaries point ∨ low ≤ point := by
  rcases lt_or_ge point low with hlt | hge
  · have hsame : Covers updated point ↔ Covers boundaries point :=
      covers_congr fun boundary hle ↦ hbelow boundary (hle.trans_lt hlt)
    simp [hsame, hlt.not_ge]
  · refine iff_of_true (covers_of_flagged hge (fun boundary hin _ ↦ habove boundary hin) ?_)
      (Or.inr hge)
    exact ⟨_, lowerBound_eq_some.mpr ⟨hlow, le_rfl, fun _ _ hle ↦ hle⟩, rfl⟩

end BoundaryMap

end NdnCxx
