import NdnCxx.Foundation.BoundaryMap
import NdnCxx.Foundation.Run
import NdnCxx.Name.Uri

/-!
# Exclude filters

`Exclude` keeps a map from boundary components to an ANY flag, ordered by `std::greater`. This
module embeds the high-level mutators and `isExcluded`, and relates every sequence of calls to the
union of the points, intervals and half-lines that were asked for.

The relation has two gaps in the source. `excludeRange` closes the new interval with an unflagged
boundary even when the interval lies strictly inside a stretch that is already excluded, which
un-excludes the rest of that stretch. And `isExcluded` recognises an unflagged boundary through
`Component::equals`, which ignores the component type. Runs that meet neither are exact.
-/

namespace NdnCxx

/-- The boundaries of an exclude filter, `m_exclude`. -/
structure Exclude where
  boundaries : BoundaryMap Component
  deriving DecidableEq

namespace Exclude

open BoundaryMap

def empty : Exclude := ⟨OrderedMap.empty⟩

def isExcluded (exclude : Exclude) (component : Component) : Bool :=
  match exclude.boundaries.lowerBound component with
  | none => false
  | some (boundary, isAny) => if isAny then true else boundary.equals component

def excludeOne (exclude : Exclude) (component : Component) : Exclude :=
  if !exclude.isExcluded component then ⟨exclude.boundaries.insert component false⟩ else exclude

/-- The opening part shared by `excludeRange` and `excludeAfter`: the boundaries with a flagged one
covering `lower`, and the iterator `newFrom` to it. -/
def openRange (exclude : Exclude) (lower : Component) : BoundaryMap Component × Component :=
  match exclude.boundaries.lowerBound lower with
  | some (newFrom, true) => (exclude.boundaries, newFrom)
  -- inserting a boundary that already exists only updates its ANY flag
  | _ => (exclude.boundaries.assign lower true, lower)

def excludeRange (exclude : Exclude) (lower upper : Component) : Except Error Exclude :=
  if lower ≥ upper then
    .error ⟨.exclude, "Invalid exclude range [" ++ String.ofList lower.toUri ++ ", " ++
      String.ofList upper.toUri ++ "] (for single name exclude use Exclude::excludeOne)"⟩
  else
    let (opened, newFrom) := exclude.openRange lower
    match opened.lowerBound upper with
    -- `newTo` cannot be `end()`: the opened boundary is not above `upper`
    | none => .ok ⟨opened⟩
    | some (newTo, isAny) =>
        if newTo = newFrom ∨ isAny = false then
          let closed := opened.insert upper false
          match closed.next upper with
          | none => .ok ⟨closed⟩
          | some (afterTo, _) => .ok ⟨closed.eraseRange afterTo newFrom⟩
        else .ok ⟨opened.eraseRange newTo newFrom⟩

def excludeBefore (exclude : Exclude) (upper : Component) : Except Error Exclude :=
  exclude.excludeRange Component.empty upper

def excludeAfter (exclude : Exclude) (lower : Component) : Exclude :=
  let (opened, newFrom) := exclude.openRange lower
  match opened.entries with
  | [] => ⟨opened⟩
  | (first, _) :: _ => if first ≠ newFrom then ⟨opened.eraseRange first newFrom⟩ else ⟨opened⟩

def clear (_exclude : Exclude) : Exclude := empty

/-! ## Calls and what they ask for -/

/-- A call of the high-level API that changes the filter. -/
inductive Call
  | excludeOne (component : Component)
  | excludeRange (lower upper : Component)
  | excludeBefore (upper : Component)
  | excludeAfter (lower : Component)
  | clear
  deriving DecidableEq

/-- Perform one call; a thrown `Exclude::Error` leaves no resulting filter. -/
def perform (exclude : Exclude) : Call → Option Exclude
  | .excludeOne component => some (exclude.excludeOne component)
  | .excludeRange lower upper => (exclude.excludeRange lower upper).toOption
  | .excludeBefore upper => (exclude.excludeBefore upper).toOption
  | .excludeAfter lower => some (exclude.excludeAfter lower)
  | .clear => some exclude.clear

/-- The excluded components after one more call, in the canonical order. -/
def Call.extend (excluded : Set Component) : Call → Set Component
  | .excludeOne component => excluded ∪ {component}
  | .excludeRange lower upper => excluded ∪ Set.Icc lower upper
  | .excludeBefore upper => excluded ∪ Set.Icc Component.empty upper
  | .excludeAfter lower => excluded ∪ Set.Ici lower
  | .clear => ∅

/-- The union, since the last `clear`, of everything the calls ask to exclude. -/
def requested (calls : List Call) : Set Component := calls.foldl Call.extend ∅

/-- The components that a call can leave behind as an unflagged boundary. -/
def Call.extendEnds (ends : Set Component) : Call → Set Component
  | .excludeOne component => ends ∪ {component}
  | .excludeRange _ upper => ends ∪ {upper}
  | .excludeBefore upper => ends ∪ {upper}
  | .excludeAfter _ => ends
  | .clear => ∅

/-- The arguments of `excludeOne` and the upper ends of ranges since the last `clear`. -/
def unflaggedEnds (calls : List Call) : Set Component := calls.foldl Call.extendEnds ∅

/-- The new interval lies strictly inside a stretch that is excluded already: the greatest boundary
not above `lower` carries the ANY flag and is also the greatest boundary not above `upper`. -/
def InsideStretch (exclude : Exclude) (lower upper : Component) : Prop :=
  ∃ boundary, exclude.boundaries.lowerBound lower = some (boundary, true) ∧
    exclude.boundaries.lowerBound upper = some (boundary, true)

/-- A range call does not start strictly inside an excluded stretch. -/
def NotInside (exclude : Exclude) : Call → Prop
  | .excludeRange lower upper => ¬ exclude.InsideStretch lower upper
  | .excludeBefore upper => ¬ exclude.InsideStretch Component.empty upper
  | _ => True

/-! ## What each call adds -/

/-- What the opening part of a range guarantees about its two results. -/
structure Opened (exclude : Exclude) (lower : Component) (opened : BoundaryMap Component)
    (newFrom : Component) : Prop where
  flagged : (newFrom, true) ∈ opened
  le_lower : newFrom ≤ lower
  greatest : ∀ boundary ∈ opened, boundary.1 ≤ lower → boundary.1 ≤ newFrom
  unchanged : ∀ boundary : Component × Bool, boundary.1 ≠ newFrom →
    (boundary ∈ opened ↔ boundary ∈ exclude.boundaries)
  covers : ∀ point, newFrom ≤ point → point < lower → Covers exclude.boundaries point
  /-- Either the flagged boundary was there before, or `lower` was not inside a stretch. -/
  origin : (opened = exclude.boundaries ∧
      exclude.boundaries.lowerBound lower = some (newFrom, true)) ∨
    (newFrom = lower ∧
      ∀ boundary, exclude.boundaries.lowerBound lower = some boundary → boundary.2 = false)

/-- Reusing a flagged boundary changes nothing. -/
theorem opened_of_flagged {exclude : Exclude} {lower newFrom : Component}
    (hbound : exclude.boundaries.lowerBound lower = some (newFrom, true)) :
    Opened exclude lower exclude.boundaries newFrom where
  flagged := (lowerBound_eq_some.mp hbound).1
  le_lower := (lowerBound_eq_some.mp hbound).2.1
  greatest := (lowerBound_eq_some.mp hbound).2.2
  unchanged _ _ := Iff.rfl
  covers point hle hlt := by
    obtain ⟨hmem, -, hgreatest⟩ := lowerBound_eq_some.mp hbound
    exact ⟨(newFrom, true), lowerBound_eq_some.mpr ⟨hmem, hle, fun other hother hotherLe ↦
      hgreatest other hother (hotherLe.trans hlt.le)⟩, Or.inl rfl⟩
  origin := Or.inl ⟨rfl, hbound⟩

/-- Placing a flagged boundary at `lower` itself. -/
theorem opened_of_assign {exclude : Exclude} {lower : Component}
    (hflag : ∀ boundary, exclude.boundaries.lowerBound lower = some boundary →
      boundary.2 = false) :
    Opened exclude lower (exclude.boundaries.assign lower true) lower where
  flagged := OrderedMap.mem_assign.mpr (Or.inl rfl)
  le_lower := le_rfl
  greatest _ _ hle := hle
  unchanged boundary hne := by
    rw [OrderedMap.mem_assign]
    constructor
    · rintro (rfl | ⟨hold, _⟩)
      · exact absurd rfl hne
      · exact hold
    · exact fun hold ↦ Or.inr ⟨hold, hne⟩
  covers _ hle hlt := absurd hle hlt.not_ge
  origin := Or.inr ⟨rfl, hflag⟩

theorem openRange_opened (exclude : Exclude) (lower : Component) :
    Opened exclude lower (exclude.openRange lower).1 (exclude.openRange lower).2 := by
  unfold openRange
  split
  · next newFrom hbound => exact opened_of_flagged hbound
  · next hother =>
    refine opened_of_assign fun boundary hbound ↦ ?_
    obtain ⟨key, isAny⟩ := boundary
    cases isAny with
    | false => rfl
    | true => exact absurd hbound (hother key)

variable {boundary : Component × Bool} {calls : List Call}

/-- `excludeAfter` keeps exactly the opened boundaries up to the flagged one. -/
theorem mem_excludeAfter_iff {exclude : Exclude} {lower : Component} :
    boundary ∈ (exclude.excludeAfter lower).boundaries ↔
      boundary ∈ (exclude.openRange lower).1 ∧ boundary.1 ≤ (exclude.openRange lower).2 := by
  have hopened := exclude.openRange_opened lower
  unfold excludeAfter
  generalize exclude.openRange lower = pair at hopened ⊢
  obtain ⟨opened, newFrom⟩ := pair
  cases hentries : opened.entries with
  | nil =>
    have habsurd := hopened.flagged
    simp [OrderedMap.mem_def, hentries] at habsurd
  | cons head rest =>
    obtain ⟨first, flag⟩ := head
    have hfirst : ∀ other ∈ opened, other.1 ≤ first := by
      intro other hother
      have hsorted := opened.sorted
      rw [hentries, List.pairwise_cons] at hsorted
      rw [OrderedMap.mem_def, hentries, List.mem_cons] at hother
      rcases hother with rfl | hin
      · exact le_rfl
      · exact (hsorted.1 other hin).le
    by_cases hne : first ≠ newFrom
    · simp only [hentries, if_pos hne, OrderedMap.mem_eraseRange, not_lt]
      exact and_congr_right fun hin ↦ or_iff_right (hfirst boundary hin).not_gt
    · rw [not_not] at hne
      simp only [hentries, hne, ne_eq, not_true_eq_false, if_false]
      exact (and_iff_left_of_imp fun hin ↦ hne ▸ hfirst boundary hin).symm

/-- Replacing `newFrom` by the requested lower end changes nothing that was not covered before. -/
theorem Opened.covers_or_iff {exclude : Exclude} {lower newFrom : Component}
    {opened : BoundaryMap Component} (hopened : Opened exclude lower opened newFrom)
    (point : Component) (upper : Component → Prop) :
    (Covers exclude.boundaries point ∨ newFrom ≤ point ∧ upper point) ↔
      (Covers exclude.boundaries point ∨ lower ≤ point ∧ upper point) := by
  constructor
  · rintro (hold | ⟨hge, hupper⟩)
    · exact Or.inl hold
    · rcases lt_or_ge point lower with hlt | hle
      · exact Or.inl (hopened.covers point hge hlt)
      · exact Or.inr ⟨hle, hupper⟩
  · rintro (hold | ⟨hge, hupper⟩)
    · exact Or.inl hold
    · exact Or.inr ⟨hopened.le_lower.trans hge, hupper⟩

theorem covers_excludeAfter_iff (exclude : Exclude) (lower point : Component) :
    Covers (exclude.excludeAfter lower).boundaries point ↔
      Covers exclude.boundaries point ∨ lower ≤ point := by
  have hopened := exclude.openRange_opened lower
  have hhalf := covers_halfLine_iff exclude.boundaries (exclude.excludeAfter lower).boundaries point
    (mem_excludeAfter_iff.mpr ⟨hopened.flagged, le_rfl⟩)
    (fun boundary hlt ↦ by
      rw [mem_excludeAfter_iff, hopened.unchanged boundary hlt.ne, and_iff_left hlt.le])
    (fun boundary hin ↦ (mem_excludeAfter_iff.mp hin).2)
  have hends := hopened.covers_or_iff point fun _ ↦ True
  simpa using hhalf.trans (by simpa using hends)

variable {result : Exclude}

section ExcludeRange

variable {exclude : Exclude} {lower upper newFrom newTo : Component} {isAny : Bool}
    {opened : BoundaryMap Component} {afterTo : Component}

/-- What the closing part of a range leaves: nothing strictly between the two ends. -/
theorem mem_closeRange_iff {flag : Bool}
    (hnext : (opened.insert upper false).next upper = some (afterTo, flag)) :
    boundary ∈ (opened.insert upper false).eraseRange afterTo newFrom ↔
      boundary ∈ opened.insert upper false ∧ (upper ≤ boundary.1 ∨ boundary.1 ≤ newFrom) := by
  obtain ⟨-, hbelow, hgreatest⟩ := OrderedMap.next_eq_some_iff.mp hnext
  rw [OrderedMap.mem_eraseRange, not_lt]
  refine and_congr_right fun hin ↦ or_congr_left ⟨fun hafter ↦ ?_, fun hge ↦ hbelow.trans_le hge⟩
  by_contra hnot
  exact hgreatest boundary hin (not_le.mp hnot) hafter

section

variable (hopened : Opened exclude lower opened newFrom)
include hopened

section

variable (hlt : lower < upper)
include hlt

/-- The boundary after `upper` exists, because the opened boundary is one. -/
theorem next_insert_upper :
    ∃ afterTo flag, (opened.insert upper false).next upper = some (afterTo, flag) := by
  cases hnext : (opened.insert upper false).next upper with
  | none =>
    have hnone := OrderedMap.next_eq_none_iff.mp hnext (newFrom, true)
      (OrderedMap.mem_insert.mpr (Or.inl hopened.flagged))
    exact absurd (hopened.le_lower.trans_lt hlt) hnone
  | some pair => exact ⟨pair.1, pair.2, rfl⟩

/-- When a range has to be closed and does not start inside a stretch, the stretch after `upper`
was not covered before. -/
theorem unflagged_at_upper (hbound : opened.lowerBound upper = some (newTo, isAny))
    (hclose : newTo = newFrom ∨ isAny = false) (hinside : ¬ exclude.InsideStretch lower upper)
    (hold : exclude.boundaries.lowerBound upper = some boundary) : boundary.2 = false := by
  rcases hopened.origin with ⟨rfl, hlower⟩ | ⟨rfl, hflag⟩
  · obtain rfl : boundary = (newTo, isAny) := Option.some.inj (hold.symm.trans hbound)
    cases isAny with
    | false => rfl
    | true =>
      obtain rfl := hclose.resolve_right (by simp)
      exact absurd ⟨newTo, hlower, hbound⟩ hinside
  · obtain ⟨hmem, hle, hgreatest⟩ := lowerBound_eq_some.mp hold
    rcases le_or_gt boundary.1 newFrom with hbelow | habove
    · -- no boundary in between, so it is also the greatest one not above the lower end
      exact hflag boundary (lowerBound_eq_some.mpr ⟨hmem, hbelow, fun other hother hotherLe ↦
        hgreatest other hother (hotherLe.trans hlt.le)⟩)
    · have hopenedMem := (hopened.unchanged boundary habove.ne').mpr hmem
      obtain ⟨hnewMem, hnewLe, hnewGreatest⟩ := lowerBound_eq_some.mp hbound
      have hnewAbove := hnewGreatest boundary hopenedMem hle
      have hne : newTo ≠ newFrom := (habove.trans_le hnewAbove).ne'
      have hnewOld := (hopened.unchanged (newTo, isAny) hne).mp hnewMem
      have hkey : boundary.1 = newTo := le_antisymm hnewAbove (hgreatest _ hnewOld hnewLe)
      obtain rfl : boundary = (newTo, isAny) := OrderedMap.entry_unique hmem hnewOld hkey
      exact hclose.resolve_left hne

/-- A boundary already at `upper` is unflagged when the range has to be closed there. -/
theorem eq_of_mem_upper (hbound : opened.lowerBound upper = some (newTo, isAny))
    (hclose : newTo = newFrom ∨ isAny = false) (hmem : boundary ∈ opened.insert upper false)
    (hkey : boundary.1 = upper) : boundary = (upper, false) := by
  rcases OrderedMap.mem_insert.mp hmem with hold | ⟨rfl, _⟩
  · have hatUpper : opened.lowerBound upper = some boundary :=
      lowerBound_eq_some.mpr ⟨hold, hkey.le, fun other _ hle ↦ hkey ▸ hle⟩
    obtain rfl : (newTo, isAny) = boundary := Option.some.inj (hbound.symm.trans hatUpper)
    have hne : newTo ≠ newFrom := by
      have hfrom := hopened.le_lower.trans_lt hlt
      rw [← show newTo = upper from hkey] at hfrom
      exact hfrom.ne'
    exact Prod.ext hkey (hclose.resolve_left hne)
  · rfl

theorem covers_closeRange_iff (hbound : opened.lowerBound upper = some (newTo, isAny))
    (hclose : newTo = newFrom ∨ isAny = false) (hinside : ¬ exclude.InsideStretch lower upper)
    {flag : Bool} (hnext : (opened.insert upper false).next upper = some (afterTo, flag))
    (point : Component) :
    Covers ((opened.insert upper false).eraseRange afterTo newFrom) point ↔
      Covers exclude.boundaries point ∨ lower ≤ point ∧ point ≤ upper := by
  have hfromUpper : newFrom < upper := hopened.le_lower.trans_lt hlt
  have hkeep (boundary : Component × Bool) (hne : boundary.1 ≠ upper)
      (hne' : boundary.1 ≠ newFrom) :
      boundary ∈ opened.insert upper false ↔ boundary ∈ exclude.boundaries := by
    rw [OrderedMap.mem_insert, ← hopened.unchanged boundary hne']
    exact or_iff_left fun h ↦ hne (by rw [h.1])
  have hend : (upper, false) ∈ (opened.insert upper false).eraseRange afterTo newFrom := by
    obtain ⟨stored, hstored⟩ := opened.key_mem_insert upper false
    have heq := eq_of_mem_upper hopened hlt hbound hclose hstored rfl
    exact (mem_closeRange_iff hnext).mpr ⟨heq ▸ hstored, Or.inl le_rfl⟩
  rw [covers_span_iff exclude.boundaries newFrom upper]
  · exact hopened.covers_or_iff point (· ≤ upper)
  · exact (mem_closeRange_iff hnext).mpr
      ⟨OrderedMap.mem_insert.mpr (Or.inl hopened.flagged), Or.inr le_rfl⟩
  · intro boundary hbelow
    rw [mem_closeRange_iff hnext, hkeep boundary (hbelow.trans hfromUpper).ne hbelow.ne]
    exact and_iff_left (Or.inr hbelow.le)
  · intro boundary habove
    rw [mem_closeRange_iff hnext, hkeep boundary habove.ne' (hfromUpper.trans habove).ne']
    exact and_iff_left (Or.inl habove.le)
  · intro boundary hin habove hle
    obtain ⟨hmem, hupper | hfrom⟩ := (mem_closeRange_iff hnext).mp hin
    · exact eq_of_mem_upper hopened hlt hbound hclose hmem (le_antisymm hle hupper)
    · exact absurd hfrom habove.not_ge
  · intro beyond hbeyond hgap
    refine iff_of_false (not_covers_of_gap hbeyond hgap fun boundary hold ↦ ?_)
      (not_not.mpr hend)
    exact unflagged_at_upper hopened hlt hbound hclose hinside hold

/-- A range that ends inside a stretch is joined with it. -/
theorem covers_joinRange_iff (hbound : opened.lowerBound upper = some (newTo, true))
    (hne : newTo ≠ newFrom) (point : Component) :
    Covers (opened.eraseRange newTo newFrom) point ↔
      Covers exclude.boundaries point ∨ lower ≤ point ∧ point ≤ upper := by
  obtain ⟨hnewMem, hnewLe, hnewGreatest⟩ := lowerBound_eq_some.mp hbound
  have hfromUpper : newFrom < upper := hopened.le_lower.trans_lt hlt
  have hfromNew : newFrom < newTo :=
    lt_of_le_of_ne (hnewGreatest _ hopened.flagged hfromUpper.le) hne.symm
  have hmem (boundary : Component × Bool) : boundary ∈ opened.eraseRange newTo newFrom ↔
      boundary ∈ opened ∧ (newTo < boundary.1 ∨ boundary.1 ≤ newFrom) := by
    rw [OrderedMap.mem_eraseRange, not_lt]
  rw [covers_span_iff exclude.boundaries newFrom upper]
  · exact hopened.covers_or_iff point (· ≤ upper)
  · exact (hmem _).mpr ⟨hopened.flagged, Or.inr le_rfl⟩
  · intro boundary hbelow
    rw [hmem, hopened.unchanged boundary hbelow.ne]
    exact and_iff_left (Or.inr hbelow.le)
  · intro boundary habove
    rw [hmem, hopened.unchanged boundary (hfromUpper.trans habove).ne']
    exact and_iff_left (Or.inl (hnewLe.trans_lt habove))
  · intro boundary hin habove hle
    obtain ⟨hold, hafter | hfrom⟩ := (hmem boundary).mp hin
    · exact absurd (hnewGreatest boundary hold hle) hafter.not_ge
    · exact absurd hfrom habove.not_ge
  · intro beyond hbeyond hgap
    refine iff_of_true (covers_of_flagged hbeyond.le hgap ⟨(newTo, true), ?_, rfl⟩) ?_
    · refine lowerBound_eq_some.mpr
        ⟨(hopened.unchanged _ hne).mp hnewMem, hnewLe, fun other hother hle ↦ ?_⟩
      by_cases hkey : other.1 = newFrom
      · exact hkey ▸ hfromNew.le
      · exact hnewGreatest other ((hopened.unchanged other hkey).mpr hother) hle
    · intro hin
      obtain ⟨hold, hafter | hfrom⟩ := (hmem _).mp hin
      · exact absurd (hnewGreatest _ hold le_rfl) hafter.not_ge
      · exact absurd hfrom hfromUpper.not_ge

end

end

section

variable (hresult : exclude.excludeRange lower upper = .ok result)
include hresult

/-- Everything a range call that returns normally can have done. -/
theorem excludeRange_cases :
    lower < upper ∧ ∃ opened newFrom newTo isAny, Opened exclude lower opened newFrom ∧
      opened.lowerBound upper = some (newTo, isAny) ∧
      (((newTo = newFrom ∨ isAny = false) ∧ ∃ afterTo flag,
          (opened.insert upper false).next upper = some (afterTo, flag) ∧
          result = ⟨(opened.insert upper false).eraseRange afterTo newFrom⟩) ∨
        (newTo ≠ newFrom ∧ isAny = true ∧ result = ⟨opened.eraseRange newTo newFrom⟩)) := by
  have hopened := exclude.openRange_opened lower
  unfold excludeRange at hresult
  generalize exclude.openRange lower = pair at hopened hresult
  obtain ⟨opened, newFrom⟩ := pair
  split_ifs at hresult with hinvalid
  have hlt : lower < upper := not_le.mp hinvalid
  refine ⟨hlt, opened, newFrom, ?_⟩
  cases hbound : opened.lowerBound upper with
  | none =>
    have hnone := lowerBound_eq_none.mp hbound _ hopened.flagged
    exact absurd (hopened.le_lower.trans_lt hlt) hnone.not_gt
  | some pair =>
    obtain ⟨newTo, isAny⟩ := pair
    refine ⟨newTo, isAny, hopened, rfl, ?_⟩
    simp only [hbound] at hresult
    split_ifs at hresult with hclose
    · obtain ⟨afterTo, flag, hnext⟩ := next_insert_upper hopened hlt
      simp only [hnext, Except.ok.injEq] at hresult
      exact Or.inl ⟨hclose, afterTo, flag, hnext, hresult.symm⟩
    · rw [not_or] at hclose
      exact Or.inr ⟨hclose.1, by simpa using hclose.2, (Except.ok.inj hresult).symm⟩

/-- A range that does not start strictly inside a stretch adds exactly the closed interval. -/
theorem covers_excludeRange_iff (hinside : ¬ exclude.InsideStretch lower upper)
    (point : Component) :
    Covers result.boundaries point ↔
      Covers exclude.boundaries point ∨ point ∈ Set.Icc lower upper := by
  obtain ⟨hlt, opened, newFrom, newTo, isAny, hopened, hbound, hcases⟩ :=
    excludeRange_cases hresult
  rcases hcases with ⟨hclose, afterTo, flag, hnext, rfl⟩ | ⟨hne, rfl, rfl⟩
  · exact covers_closeRange_iff hopened hlt hbound hclose hinside hnext point
  · exact covers_joinRange_iff hopened hlt hbound hne point

/-- The only unflagged boundary a range can add is its upper end. -/
theorem unflagged_excludeRange {key : Component} (hmem : (key, false) ∈ result.boundaries) :
    (key, false) ∈ exclude.boundaries ∨ key = upper := by
  obtain ⟨hlt, opened, newFrom, newTo, isAny, hopened, hbound, hcases⟩ :=
    excludeRange_cases hresult
  have hopenedMem (hin : (key, false) ∈ opened) : (key, false) ∈ exclude.boundaries := by
    refine (hopened.unchanged (key, false) ?_).mp hin
    rintro rfl
    have heq := OrderedMap.entry_unique hin hopened.flagged rfl
    simp at heq
  rcases hcases with ⟨hclose, afterTo, flag, hnext, rfl⟩ | ⟨hne, rfl, rfl⟩
  · rcases OrderedMap.mem_insert.mp (OrderedMap.mem_eraseRange.mp hmem).1 with hin | ⟨heq, _⟩
    · exact Or.inl (hopenedMem hin)
    · exact Or.inr (congrArg Prod.fst heq)
  · exact Or.inl (hopenedMem (OrderedMap.mem_eraseRange.mp hmem).1)

end

end ExcludeRange

theorem unflagged_excludeAfter {exclude : Exclude} {lower key : Component}
    (hmem : (key, false) ∈ (exclude.excludeAfter lower).boundaries) :
    (key, false) ∈ exclude.boundaries := by
  have hopened := exclude.openRange_opened lower
  have hin := (mem_excludeAfter_iff.mp hmem).1
  refine (hopened.unchanged (key, false) ?_).mp hin
  intro hkey
  have heq := OrderedMap.entry_unique hin hopened.flagged hkey
  simp at heq

/-! ## Runs -/

variable {component : Component}

/-- Where no unflagged boundary is mistaken for the component, `isExcluded` decides coverage. -/
theorem isExcluded_iff_covers {exclude : Exclude}
    (hsame : ∀ key, (key, false) ∈ exclude.boundaries → key.equals component = true →
      key = component) :
    exclude.isExcluded component = true ↔ Covers exclude.boundaries component := by
  unfold isExcluded Covers
  cases hbound : exclude.boundaries.lowerBound component with
  | none => simp
  | some boundary =>
    obtain ⟨key, isAny⟩ := boundary
    cases isAny with
    | true => simp
    | false =>
      have hmem := (lowerBound_eq_some.mp hbound).1
      simp only [Bool.false_eq_true, if_false, Option.some.injEq, exists_eq_left', false_or]
      exact ⟨hsame key hmem, fun heq ↦ Component.equals_iff.mpr (by rw [heq])⟩

/-- `isExcluded` never misses a covered component. -/
theorem isExcluded_of_covers {exclude : Exclude} (hcovers : Covers exclude.boundaries component) :
    exclude.isExcluded component = true := by
  obtain ⟨⟨key, isAny⟩, hbound, hflag | rfl⟩ := hcovers
  · simp_all [isExcluded]
  · simp [isExcluded, hbound, Component.equals_iff]

/-- No boundary that the calls can leave unflagged has the component's bytes but another type. -/
def SameType (calls : List Call) (component : Component) : Prop :=
  ∀ stored ∈ unflaggedEnds calls, stored.equals component = true → stored.type = component.type

/-- What a filter has to do with the calls that built it. -/
structure Represents (calls : List Call) (exclude : Exclude) : Prop where
  unflagged : ∀ key, (key, false) ∈ exclude.boundaries → key ∈ unflaggedEnds calls
  covers : ∀ component, SameType calls component →
    (Covers exclude.boundaries component ↔ component ∈ requested calls)

theorem requested_append (calls : List Call) (call : Call) :
    requested (calls ++ [call]) = call.extend (requested calls) := by
  simp [requested]

theorem unflaggedEnds_append (calls : List Call) (call : Call) :
    unflaggedEnds (calls ++ [call]) = call.extendEnds (unflaggedEnds calls) := by
  simp [unflaggedEnds]

theorem eq_of_sameType {stored : Component} (hequals : stored.equals component = true)
    (htype : stored.type = component.type) : stored = component := by
  cases stored
  cases component
  simp_all [Component.equals_iff]

theorem represents_empty : Represents [] empty where
  unflagged key hmem := absurd hmem (OrderedMap.not_mem_empty _)
  covers component _ := by
    simp [empty, covers_iff, requested]

theorem represents_excludeOne {exclude : Exclude} (added : Component)
    (hrep : Represents calls exclude) :
    Represents (calls ++ [.excludeOne added]) (exclude.excludeOne added) where
  unflagged key hmem := by
    rw [unflaggedEnds_append]
    unfold excludeOne at hmem
    split_ifs at hmem with hexcluded
    · rcases OrderedMap.mem_insert.mp hmem with hold | ⟨heq, _⟩
      · exact Or.inl (hrep.unflagged key hold)
      · exact Or.inr (congrArg Prod.fst heq)
    · exact Or.inl (hrep.unflagged key hmem)
  covers component htype := by
    rw [SameType, unflaggedEnds_append] at htype
    have hbefore := hrep.covers component fun stored hstored ↦ htype stored (Or.inl hstored)
    rw [requested_append, Call.extend, Set.mem_union, Set.mem_singleton_iff, ← hbefore]
    unfold excludeOne
    split_ifs with hexcluded
    · refine covers_insert_iff fun hcovers ↦ ?_
      simp [isExcluded_of_covers hcovers] at hexcluded
    · -- an addition is skipped only for a component that is covered already
      have hadded : component = added → Covers exclude.boundaries component := by
        rintro rfl
        refine (isExcluded_iff_covers fun key hmem hequals ↦ ?_).mp (by simpa using hexcluded)
        exact eq_of_sameType hequals (htype key (Or.inl (hrep.unflagged key hmem)) hequals)
      exact (or_iff_left_of_imp hadded).symm

theorem represents_excludeRange {exclude : Exclude} {lower upper : Component} {call : Call}
    (hrequest : ∀ excluded, call.extend excluded = excluded ∪ Set.Icc lower upper)
    (hends : ∀ ends, call.extendEnds ends = ends ∪ {upper})
    (hresult : exclude.excludeRange lower upper = .ok result)
    (hinside : ¬ exclude.InsideStretch lower upper) (hrep : Represents calls exclude) :
    Represents (calls ++ [call]) result where
  unflagged key hmem := by
    rw [unflaggedEnds_append, hends]
    exact (unflagged_excludeRange hresult hmem).imp (hrep.unflagged key) id
  covers component htype := by
    rw [SameType, unflaggedEnds_append, hends] at htype
    have hbefore := hrep.covers component fun stored hstored ↦ htype stored (Or.inl hstored)
    rw [requested_append, hrequest, Set.mem_union, ← hbefore]
    exact covers_excludeRange_iff hresult hinside component

theorem represents_excludeAfter {exclude : Exclude} (lower : Component)
    (hrep : Represents calls exclude) :
    Represents (calls ++ [.excludeAfter lower]) (exclude.excludeAfter lower) where
  unflagged key hmem := by
    rw [unflaggedEnds_append]
    exact hrep.unflagged key (unflagged_excludeAfter hmem)
  covers component htype := by
    rw [SameType, unflaggedEnds_append] at htype
    rw [requested_append, Call.extend, Set.mem_union, ← hrep.covers component htype]
    exact covers_excludeAfter_iff exclude lower component

/-- One call that is not a nested range keeps the filter and its calls related. -/
theorem represents_perform {exclude : Exclude} {call : Call} (hrep : Represents calls exclude)
    (hallowed : exclude.NotInside call) (hresult : exclude.perform call = some result) :
    Represents (calls ++ [call]) result := by
  have hok {outcome : Except Error Exclude} (h : outcome.toOption = some result) :
      outcome = .ok result := by
    cases outcome <;> simp_all [Except.toOption]
  cases call with
  | excludeOne added =>
    obtain rfl := Option.some.inj hresult
    exact represents_excludeOne added hrep
  | excludeRange lower upper =>
    exact represents_excludeRange (fun _ ↦ rfl) (fun _ ↦ rfl) (hok hresult) hallowed hrep
  | excludeBefore upper =>
    exact represents_excludeRange (fun _ ↦ rfl) (fun _ ↦ rfl) (hok hresult) hallowed hrep
  | excludeAfter lower =>
    obtain rfl := Option.some.inj hresult
    exact represents_excludeAfter lower hrep
  | clear =>
    obtain rfl := Option.some.inj hresult
    exact ⟨fun key hmem ↦ absurd hmem (OrderedMap.not_mem_empty _), fun component _ ↦ by
      simp [clear, empty, covers_iff, requested_append, Call.extend]⟩

theorem represents_run {exclude : Exclude} (hguarded : Run.Guarded perform NotInside empty calls)
    (hrun : Run.run perform empty calls = some exclude) : Represents calls exclude :=
  Run.invariant_of_guarded Represents
    (fun _ _ _ _ hrep hallowed hresult ↦ represents_perform hrep hallowed hresult)
    represents_empty hguarded hrun

/-- After every run without a nested range, `isExcluded` answers for the union of everything the
calls asked to exclude. -/
theorem isExcluded_iff_requested (calls : List Call) (exclude : Exclude)
    (hrun : Run.run perform empty calls = some exclude)
    (hguarded : Run.Guarded perform NotInside empty calls) (component : Component)
    (htype : SameType calls component) :
    exclude.isExcluded component = true ↔ component ∈ requested calls := by
  have hrep := represents_run hguarded hrun
  rw [isExcluded_iff_covers fun key hmem hequals ↦
    eq_of_sameType hequals (htype key (hrep.unflagged key hmem) hequals)]
  exact hrep.covers component htype

/-- The rule applies to a run in which a range swallows an earlier point. -/
theorem isExcluded_iff_requested_overlap :
    ∃ exclude, Run.run perform empty [.excludeOne (.generic [0x62]),
        .excludeRange (.generic [0x61]) (.generic [0x63])] = some exclude ∧
      (exclude.isExcluded (.generic [0x62]) = true ↔
        .generic [0x62] ∈ requested [.excludeOne (.generic [0x62]),
          .excludeRange (.generic [0x61]) (.generic [0x63])]) := by
  refine ⟨_, rfl, isExcluded_iff_requested _ _ rfl ?_ _ ?_⟩
  · refine ⟨trivial, fun next hnext ↦ ⟨?_, fun _ _ ↦ trivial⟩⟩
    obtain rfl := Option.some.inj hnext
    rintro ⟨boundary, hbound, -⟩
    have hnone : (empty.excludeOne (.generic [0x62])).boundaries.lowerBound (.generic [0x61]) =
        none := by decide
    simp [hnone] at hbound
  · rintro stored ((hin | rfl) | rfl) _
    · exact absurd hin (Set.notMem_empty stored)
    · rfl
    · rfl

/-- Both gaps at concrete filters. Excluding `[b, c]` inside the excluded `[a, z]` un-excludes `d`;
excluding one digest also excludes the generic component with the same 32 bytes. -/
theorem isExcluded_ne_requested :
    ((Run.run perform empty [.excludeRange (.generic [0x61]) (.generic [0x7a]),
        .excludeRange (.generic [0x62]) (.generic [0x63])]).map
          (·.isExcluded (.generic [0x64])) = some false ∧
      .generic [0x64] ∈ requested [.excludeRange (.generic [0x61]) (.generic [0x7a]),
        .excludeRange (.generic [0x62]) (.generic [0x63])]) ∧
    ((Run.run perform empty [.excludeOne ⟨Tlv.implicitSha256DigestComponent,
        List.replicate 32 0⟩]).map (·.isExcluded (.generic (List.replicate 32 0))) = some true ∧
      .generic (List.replicate 32 0) ∉ requested [.excludeOne
        ⟨Tlv.implicitSha256DigestComponent, List.replicate 32 0⟩]) := by
  refine ⟨⟨by decide, ?_⟩, by decide, ?_⟩
  · exact Or.inl (Or.inr ⟨by decide, by decide⟩)
  · rintro (hin | hin)
    · exact hin
    · exact absurd hin (by decide)

end Exclude

end NdnCxx
