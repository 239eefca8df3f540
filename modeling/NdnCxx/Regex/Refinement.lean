import Mathlib.Order.CompletePartialOrder
import NdnCxx.Regex.Search
import NdnCxx.Regex.Termination

/-!
# The matchers refine the search

The search of the code writes to the results of the groups in every attempt. It succeeds when the
search without side effects does, and then it leaves the same results behind in all groups that
took part in the match. The results of the others are dirty: they may stem from an attempt that
failed or from an earlier match.
-/

namespace NdnCxx

variable {first : ℕ} {exprs : List (List Char)} {matcher : RegexMatcher}
    {matchers : List RegexMatcher} {last : ℕ} {isInclusion : Bool}

namespace RegexMatcher

open Pattern (Captures longest iterate)

/-! ## Refinement -/

/-- Apart from the dirty back references, whatever is captured is kept as a result. -/
def AgreesOff (dirty : Set ℕ) (captures : Captures) (refs : Backrefs) : Prop :=
  ∀ backrefNo ∉ dirty, ∀ consumed ∈ captures backrefNo, refs backrefNo = consumed

/-- Started with dirty results, the code succeeds where the search does, writes to the results of
a range only, and leaves none of this range dirty if it succeeds. -/
structure RefinesFrom (dirty range : Set ℕ) (code : Backrefs → Outcome)
    (find : Captures → Option Captures) : Prop where
  frame : ∀ {refs isMatched after}, code refs = some (isMatched, after) →
    ∀ backrefNo ∉ range, after backrefNo = refs backrefNo
  isMatched_eq : ∀ {refs isMatched after}, code refs = some (isMatched, after) →
    ∀ captures, isMatched = (find captures).isSome
  agrees : ∀ {refs isMatched after captures}, code refs = some (isMatched, after) →
    AgreesOff dirty captures refs → ∀ found ∈ find captures, AgreesOff (dirty \ range) found after

def Refines (range : Set ℕ) (code : Backrefs → Outcome) (find : Captures → Option Captures) :
    Prop := ∀ dirty, RefinesFrom dirty range code find

variable {range : Set ℕ} {refs : Backrefs} {code : Backrefs → Outcome} {after : Backrefs}
    {captures : Captures} {dirty : Set ℕ} {attempt : ℕ → Backrefs → Outcome} {len : ℕ}

/-- What was written makes the range dirty. -/
theorem AgreesOff.union (hagrees : AgreesOff dirty captures refs)
    (hframe : ∀ backrefNo ∉ range, after backrefNo = refs backrefNo) :
    AgreesOff (dirty ∪ range) captures after := by
  intro backrefNo hclean consumed hconsumed
  rw [Set.mem_union, not_or] at hclean
  rw [hframe backrefNo hclean.2]
  exact hagrees backrefNo hclean.1 consumed hconsumed

variable {isMatched : Bool} {backrefNo : ℕ}

theorem andThen_eq_some {first second : Backrefs → Outcome}
    (hrun : andThen first second refs = some (isMatched, after)) :
    (∃ between, first refs = some (true, between) ∧ second between = some (isMatched, after)) ∨
      (first refs = some (false, after) ∧ isMatched = false) := by
  unfold andThen at hrun
  cases hfirst : first refs with
  | none => simp [hfirst] at hrun
  | some outcome =>
    obtain ⟨isFirst, between⟩ := outcome
    cases isFirst with
    | true => exact .inl ⟨between, rfl, by simpa [hfirst] using hrun⟩
    | false =>
      simp only [hfirst, Option.bind_eq_bind, Option.bind_some, Bool.false_eq_true, if_false,
        Option.pure_def, Option.some.injEq, Prod.mk.injEq] at hrun
      exact .inr ⟨by rw [hrun.2], hrun.1.symm⟩

theorem tryLengths_succ_eq_some
    (hrun : tryLengths attempt (len + 1) refs = some (isMatched, after)) :
    (attempt (len + 1) refs = some (true, after) ∧ isMatched = true) ∨
      ∃ between, attempt (len + 1) refs = some (false, between) ∧
        tryLengths attempt len between = some (isMatched, after) := by
  unfold tryLengths at hrun
  cases hattempt : attempt (len + 1) refs with
  | none => simp [hattempt] at hrun
  | some outcome =>
    obtain ⟨isFirst, between⟩ := outcome
    cases isFirst with
    | true =>
      simp only [hattempt, Option.bind_eq_bind, Option.bind_some, if_true, Option.pure_def,
        Option.some.injEq, Prod.mk.injEq] at hrun
      exact .inl ⟨by rw [hrun.2], hrun.1.symm⟩
    | false => exact .inr ⟨between, rfl, by simpa [hattempt] using hrun⟩

theorem RefinesFrom.find_eq_none {find : Captures → Option Captures}
    (hrefines : RefinesFrom dirty range code find) (hfailed : code refs = some (false, after))
    (captures : Captures) : find captures = none := by
  have hmatched := hrefines.isMatched_eq hfailed captures
  exact Option.isSome_eq_false_iff.mp hmatched.symm |> Option.isNone_iff_eq_none.mp

/-- Nothing is claimed of a search without enough depth. -/
theorem refines_none {find : Captures → Option Captures} (hcode : ∀ refs, code refs = none) :
    Refines range code find := by
  intro dirty
  constructor
  · intro refs isMatched after hrun
    rw [hcode] at hrun
    cases hrun
  · intro refs isMatched after hrun
    rw [hcode] at hrun
    cases hrun
  · intro refs isMatched after captures hrun
    rw [hcode] at hrun
    cases hrun

/-- A search that succeeds without an attempt. -/
theorem refinesFrom_success {find : Captures → Option Captures} (change : Captures → Captures)
    (hcode : ∀ refs, code refs = some (true, refs))
    (hfind : ∀ captures, find captures = some (change captures))
    (hagrees : ∀ captures refs, AgreesOff dirty captures refs →
      AgreesOff (dirty \ range) (change captures) refs) : RefinesFrom dirty range code find := by
  constructor
  · intro refs isMatched after hrun backrefNo _
    rw [hcode] at hrun
    cases hrun
    rfl
  · intro refs isMatched after hrun captures
    rw [hcode] at hrun
    cases hrun
    rw [hfind]
    rfl
  · intro refs isMatched after captures hrun hbefore found hfound
    rw [hcode] at hrun
    cases hrun
    rw [hfind] at hfound
    cases hfound
    exact hagrees captures refs hbefore

/-- A search that fails without an attempt. -/
theorem refines_failure {find : Captures → Option Captures}
    (hcode : ∀ refs, code refs = some (false, refs)) (hfind : ∀ captures, find captures = none) :
    Refines range code find := by
  intro dirty
  constructor
  · intro refs isMatched after hrun backrefNo _
    rw [hcode] at hrun
    cases hrun
    rfl
  · intro refs isMatched after hrun captures
    rw [hcode] at hrun
    cases hrun
    rw [hfind]
    rfl
  · intro refs isMatched after captures _ _ found hfound
    rw [hfind] at hfound
    cases hfound

/-- One search behind another. -/
theorem RefinesFrom.andThen {front back : Set ℕ} {first second : Backrefs → Outcome}
    {find later : Captures → Option Captures} (hfirst : RefinesFrom dirty front first find)
    (hsecond : RefinesFrom (dirty \ front) back second later) :
    RefinesFrom dirty (front ∪ back) (andThen first second)
      fun captures ↦ (find captures).bind later where
  frame := by
    intro refs isMatched after hrun backrefNo houtside
    rw [Set.mem_union, not_or] at houtside
    rcases andThen_eq_some hrun with ⟨between, hbetween, hafter⟩ | ⟨hfailed, -⟩
    · exact (hsecond.frame hafter backrefNo houtside.2).trans
        (hfirst.frame hbetween backrefNo houtside.1)
    · exact hfirst.frame hfailed backrefNo houtside.1
  isMatched_eq := by
    intro refs isMatched after hrun captures
    rcases andThen_eq_some hrun with ⟨between, hbetween, hafter⟩ | ⟨hfailed, rfl⟩
    · have hfound := hfirst.isMatched_eq hbetween captures
      obtain ⟨found, hfound⟩ := Option.isSome_iff_exists.mp hfound.symm
      rw [hfound]
      exact hsecond.isMatched_eq hafter found
    · rw [hfirst.find_eq_none hfailed captures]
      rfl
  agrees := by
    intro refs isMatched after captures hrun hagrees found hfound
    obtain ⟨middle, hmiddle, hlater⟩ := Option.bind_eq_some_iff.mp hfound
    rcases andThen_eq_some hrun with ⟨between, hbetween, hafter⟩ | ⟨hfailed, rfl⟩
    · rw [← Set.sdiff_sdiff]
      exact hsecond.agrees hafter (hfirst.agrees hbetween hagrees middle hmiddle) found hlater
    · rw [hfirst.find_eq_none hfailed captures] at hmiddle
      cases hmiddle

/-- The loop over the lengths. A failed attempt makes the range dirty, and the next one cleans it
if it succeeds. -/
theorem Refines.tryLengths {find : ℕ → Captures → Option Captures}
    (hattempt : ∀ tried ≤ len, Refines range (attempt tried) (find tried)) :
    Refines range (tryLengths attempt len)
      fun captures ↦ longest (fun tried ↦ find tried captures) len := by
  induction len with
  | zero => exact hattempt 0 le_rfl
  | succ len ih =>
    have hlast := hattempt (len + 1) le_rfl
    have hrest := ih fun tried htried ↦ hattempt tried (Nat.le_succ_of_le htried)
    intro dirty
    constructor
    · intro refs isMatched after hrun backrefNo houtside
      rcases tryLengths_succ_eq_some hrun with ⟨hmatched, -⟩ | ⟨between, hfailed, hafter⟩
      · exact (hlast dirty).frame hmatched backrefNo houtside
      · exact ((hrest dirty).frame hafter backrefNo houtside).trans
          ((hlast dirty).frame hfailed backrefNo houtside)
    · intro refs isMatched after hrun captures
      rw [longest, Option.isSome_or]
      rcases tryLengths_succ_eq_some hrun with ⟨hmatched, rfl⟩ | ⟨between, hfailed, hafter⟩
      · rw [← (hlast dirty).isMatched_eq hmatched captures, Bool.true_or]
      · rw [← (hlast dirty).isMatched_eq hfailed captures, Bool.false_or]
        exact (hrest dirty).isMatched_eq hafter captures
    · intro refs isMatched after captures hrun hagrees found hfound
      rw [longest] at hfound
      rcases tryLengths_succ_eq_some hrun with ⟨hmatched, rfl⟩ | ⟨between, hfailed, hafter⟩
      · have hsome := (hlast dirty).isMatched_eq hmatched captures
        rw [Option.or_of_isSome hsome.symm] at hfound
        exact (hlast dirty).agrees hmatched hagrees found hfound
      · rw [(hlast dirty).find_eq_none hfailed captures, Option.none_or] at hfound
        have hbetween := hagrees.union ((hlast dirty).frame hfailed)
        have hagreed := (hrest (dirty ∪ range)).agrees hafter hbetween found hfound
        rwa [Set.union_sdiff_right] at hagreed

/-! ## Component sets -/

variable {count offset : ℕ}

section ComponentSets

variable {library : RegexLibrary}

open Pattern

/-- Nothing is claimed of what was forgotten. -/
theorem AgreesOff.forget (hagrees : AgreesOff dirty captures refs)
    (hframe : ∀ backrefNo ∉ Set.Ico first (first + count), after backrefNo = refs backrefNo) :
    AgreesOff (dirty \ Set.Ico first (first + count)) (captures.forget first count) after := by
  intro backrefNo hclean consumed hconsumed
  rw [Captures.forget] at hconsumed
  split_ifs at hconsumed with hinside
  · cases hconsumed
  · rw [hframe backrefNo hinside]
    exact hagrees backrefNo (fun hdirty ↦ hclean ⟨hdirty, hinside⟩) consumed hconsumed

variable {member : RegexComponentMatcher} {target : Component}

theorem fst_matchComponent :
    (matchComponent library member target refs).1 = accepts library target member := by
  unfold matchComponent accepts
  split_ifs with hempty
  · simp [hempty]
  · cases hmatch : library.regexMatch member.expr target.toUri <;> simp [hempty]

theorem snd_matchComponent_of_not (hnot : accepts library target member = false) :
    (matchComponent library member target refs).2 = refs := by
  unfold matchComponent
  split_ifs with hempty
  · rfl
  · cases hmatch : library.regexMatch member.expr target.toUri with
    | none => rfl
    | some marks => simp [accepts, hmatch] at hnot

variable {candidates ordered : List RegexComponentMatcher}

/-- The loop over the component expressions stops at the first that accepts the component. -/
theorem matchComponents_eq :
    matchComponents library target candidates refs =
      match candidates.find? (accepts library target) with
      | some member => (true, (matchComponent library member target refs).2)
      | none => (false, refs) := by
  induction candidates with
  | nil => rfl
  | cons member candidates ih =>
    rw [matchComponents]
    cases haccepts : accepts library target member with
    | true =>
      have hpair : matchComponent library member target refs =
          (true, (matchComponent library member target refs).2) :=
        Prod.ext (fst_matchComponent.trans haccepts) rfl
      rw [hpair, List.find?_cons_of_pos haccepts]
    | false =>
      have hpair : matchComponent library member target refs = (false, refs) :=
        Prod.ext (fst_matchComponent.trans haccepts) (snd_matchComponent_of_not haccepts)
      rw [hpair, List.find?_cons_of_neg (by simp [haccepts])]
      exact ih

/-- A component expression writes to its own marks. -/
theorem matchComponent_frame
    (houtside : backrefNo ∉ Set.Ico member.firstBackref (member.firstBackref + member.markCount)) :
    (matchComponent library member target refs).2 backrefNo = refs backrefNo := by
  unfold matchComponent
  split_ifs with hempty
  · rfl
  · cases hmatch : library.regexMatch member.expr target.toUri with
    | none => rfl
    | some marks => exact if_neg houtside

/-- The marks of the member that accepts the component are captured as they are written. -/
theorem AgreesOff.captureMarks
    (hagrees : AgreesOff dirty captures (matchComponent library member target refs).2) :
    AgreesOff dirty (captureMarks library target member captures)
      (matchComponent library member target refs).2 := by
  unfold Pattern.captureMarks
  split_ifs with hempty
  · exact hagrees
  · cases hmatch : library.regexMatch member.expr target.toUri with
    | none => exact hagrees
    | some marks =>
      intro backrefNo hclean consumed hconsumed
      dsimp only at hconsumed
      split_ifs at hconsumed with hinside
      · simpa [matchComponent, hempty, hmatch, setMarks, hinside] using hconsumed
      · exact hagrees backrefNo hclean consumed hconsumed

theorem members_range (hmember : member ∈ members library first exprs) :
    first ≤ member.firstBackref ∧ member.firstBackref + member.markCount ≤
      first + (exprs.map (Pattern.markCount library)).sum := by
  induction exprs generalizing first with
  | nil => cases hmember
  | cons expr exprs ih =>
    rw [members] at hmember
    rw [List.map_cons, List.sum_cons]
    rcases List.mem_cons.mp hmember with rfl | hmember
    · exact ⟨le_rfl, by dsimp only; omega⟩
    · have hlater := ih hmember
      omega

/-- In a set of which one member alone accepts the component, the order does not matter. -/
theorem find_eq_of_filter_eq (hperm : ordered.Perm candidates)
    (hfilter : candidates.filter (accepts library target) = [member]) :
    ordered.find? (accepts library target) = some member := by
  have hordered : ordered.filter (accepts library target) = [member] :=
    List.perm_singleton.mp (hfilter ▸ hperm.filter (accepts library target))
  rw [← List.head?_filter, hordered]
  rfl

theorem fst_matchComponents :
    (matchComponents library target candidates refs).1 =
      candidates.any (accepts library target) := by
  rw [matchComponents_eq]
  cases hfind : candidates.find? (accepts library target) with
  | some member =>
    exact (List.any_eq_true.mpr
      ⟨member, List.mem_of_find?_eq_some hfind, List.find?_some hfind⟩).symm
  | none =>
    exact (List.any_eq_false.mpr fun member hmember ↦
      List.find?_eq_none.mp hfind member hmember).symm

theorem matchComponents_frame (hperm : ordered.Perm (members library first exprs))
    (houtside : backrefNo ∉ Set.Ico first (first + (exprs.map (Pattern.markCount library)).sum)) :
    (matchComponents library target ordered refs).2 backrefNo = refs backrefNo := by
  rw [matchComponents_eq]
  cases hfind : ordered.find? (accepts library target) with
  | none => rfl
  | some member =>
    apply matchComponent_frame
    intro hinside
    have hrange := members_range (hperm.mem_iff.mp (List.mem_of_find?_eq_some hfind))
    exact houtside ⟨hrange.1.trans hinside.1, lt_of_lt_of_le hinside.2 hrange.2⟩

theorem refines_searchSet {name : Name} (hperm : ordered.Perm (members library first exprs)) :
    Refines (Set.Ico first (first + (exprs.map (Pattern.markCount library)).sum))
      (fun refs ↦ some (matchComponentSet library isInclusion ordered name offset len refs))
      (searchSet library name isInclusion exprs first offset len) := by
  set target := name.getD offset Component.empty with htarget
  intro dirty
  by_cases hlen : len = 1
  · have hset : ∀ refs, matchComponentSet library isInclusion ordered name offset len refs =
        (if isInclusion then (matchComponents library target ordered refs).1
          else !(matchComponents library target ordered refs).1,
          (matchComponents library target ordered refs).2) := by
      intro refs
      simp [matchComponentSet, hlen, htarget]
    constructor
    · intro refs isMatched after hrun backrefNo houtside
      have hafter : (matchComponents library target ordered refs).2 = after := by
        rw [hset] at hrun
        exact congrArg Prod.snd (Option.some.inj hrun)
      exact hafter ▸ matchComponents_frame hperm houtside
    · intro refs isMatched after hrun captures
      rw [hset, fst_matchComponents, hperm.any_eq] at hrun
      have hmatched := congrArg Prod.fst (Option.some.inj hrun)
      dsimp only at hmatched
      rw [← hmatched, searchSet, ← htarget]
      cases isInclusion <;>
        cases (members library first exprs).any (accepts library target) <;> simp [hlen]
    · intro refs isMatched after captures hrun hagrees found hfound
      obtain rfl : (matchComponents library target ordered refs).2 = after := by
        rw [hset] at hrun
        exact congrArg Prod.snd (Option.some.inj hrun)
      have hforget : AgreesOff
          (dirty \ Set.Ico first (first + (exprs.map (Pattern.markCount library)).sum))
          (captures.forget first (exprs.map (Pattern.markCount library)).sum)
          (matchComponents library target ordered refs).2 :=
        hagrees.forget fun backrefNo ↦ matchComponents_frame hperm
      obtain rfl : captureMember library target (members library first exprs)
          (captures.forget first (exprs.map (Pattern.markCount library)).sum) = found := by
        rw [searchSet] at hfound
        split_ifs at hfound
        · exact Option.some.inj hfound
        · cases hfound
      unfold captureMember
      split
      · rename_i member hfilter
        have hfind := find_eq_of_filter_eq hperm hfilter
        have hresult : (matchComponents library target ordered refs).2 =
            (matchComponent library member target refs).2 := by
          rw [matchComponents_eq, hfind]
        rw [hresult] at hforget ⊢
        exact hforget.captureMarks
      · exact hforget
  · apply refines_failure
    · intro refs
      simp [matchComponentSet, hlen]
    · intro captures
      simp [searchSet, hlen]

end ComponentSets

/-! ## Matchers -/

section Matchers

variable {library : RegexLibrary} {name : Name}

open Pattern

theorem refines_recursiveMatch_nil {calls : ℕ} :
    Refines ∅ (recursiveMatch library name calls [] offset len)
      fun captures ↦ if len = 0 then some captures else none := by
  cases calls with
  | zero =>
    apply refines_none
    intro refs
    rw [recursiveMatch]
  | succ calls =>
    by_cases hlen : len = 0
    · intro dirty
      apply refinesFrom_success fun captures ↦ captures
      · intro refs
        simp [recursiveMatch, hlen]
      · intro captures
        simp [hlen]
      · intro captures refs hagrees
        rwa [Set.sdiff_empty]
    · apply refines_failure
      · intro refs
        simp [recursiveMatch, hlen]
      · intro captures
        simp [hlen]

variable {find : ℕ → ℕ → Captures → Option Captures}

/-- A matcher at the front of a list. -/
theorem refines_recursiveMatch_cons {front back : Set ℕ}
    {later : ℕ → ℕ → Captures → Option Captures} (hmatcher : ∀ calls offset len,
      Refines front (matchAt library name calls matcher offset len) (find offset len))
    (hmatchers : ∀ calls offset len,
      Refines back (recursiveMatch library name calls matchers offset len) (later offset len))
    (calls offset len : ℕ) :
    Refines (front ∪ back) (recursiveMatch library name calls (matcher :: matchers) offset len)
      fun captures ↦ longest (fun tried ↦
        (find offset tried captures).bind (later (offset + tried) (len - tried))) len := by
  cases calls with
  | zero =>
    apply refines_none
    intro refs
    rw [recursiveMatch]
  | succ calls =>
    have hrun : recursiveMatch library name (calls + 1) (matcher :: matchers) offset len =
        tryLengths (fun tried ↦ andThen (matchAt library name calls matcher offset tried)
          (recursiveMatch library name calls matchers (offset + tried) (len - tried))) len := by
      funext refs
      rw [recursiveMatch]
    have hattempt : ∀ tried ≤ len, Refines (front ∪ back)
        (andThen (matchAt library name calls matcher offset tried)
          (recursiveMatch library name calls matchers (offset + tried) (len - tried)))
        fun captures ↦ (find offset tried captures).bind (later (offset + tried) (len - tried)) :=
      fun tried _ dirty ↦ (hmatcher calls offset tried dirty).andThen
        (hmatchers calls (offset + tried) (len - tried) (dirty \ front))
    rw [hrun]
    exact Refines.tryLengths hattempt

theorem longest_eq_none {α : Type} {attempt : ℕ → Option α}
    (hattempt : ∀ tried ≤ len, attempt tried = none) : longest attempt len = none := by
  induction len with
  | zero => exact hattempt 0 le_rfl
  | succ len ih =>
    rw [longest, hattempt (len + 1) le_rfl, Option.none_or]
    exact ih fun tried htried ↦ hattempt tried (Nat.le_succ_of_le htried)

/-- A search that has to consume everything is only asked for all of it. -/
theorem longest_whole (find : ℕ → Option Captures) (len : ℕ) :
    longest (fun tried ↦ (find tried).bind fun captures ↦
      if len - tried = 0 then some captures else none) len = find len := by
  cases len with
  | zero => simp [longest]
  | succ len =>
    have hshorter : longest (fun tried ↦ (find tried).bind fun captures ↦
        if len + 1 - tried = 0 then some captures else none) len = none := by
      apply longest_eq_none
      intro tried htried
      have hleft : len + 1 - tried ≠ 0 := by omega
      simp [hleft]
    rw [longest, hshorter]
    simp

theorem refines_matchAt_patternList (hmatchers : ∀ calls offset len,
      Refines range (recursiveMatch library name calls matchers offset len) (find offset len))
    (calls offset len : ℕ) :
    Refines range (matchAt library name calls (.patternList matchers) offset len)
      (find offset len) := by
  cases calls with
  | zero =>
    apply refines_none
    intro refs
    rw [matchAt]
  | succ calls =>
    have hrun : matchAt library name (calls + 1) (.patternList matchers) offset len =
        recursiveMatch library name calls matchers offset len := by
      funext refs
      rw [matchAt]
    rw [hrun]
    exact hmatchers calls offset len

theorem matchAt_backref_eq_some {calls : ℕ}
    (hrun : matchAt library name (calls + 1) (.backref backrefNo matchers) offset len refs =
      some (isMatched, after)) :
    ∃ inner, recursiveMatch library name calls [.patternList matchers] offset len
        (Function.update refs backrefNo []) = some (isMatched, inner) ∧
      after = if isMatched then Function.update inner backrefNo (slice name offset len)
        else inner := by
  rw [matchAt] at hrun
  obtain ⟨⟨isInner, inner⟩, hinner, hresult⟩ := Option.bind_eq_some_iff.mp hrun
  cases isInner <;> cases hresult <;> exact ⟨_, hinner, rfl⟩

/-- A group resets its result, searches for its items and keeps what they consumed. -/
theorem refines_matchAt_backref (hrange : first < last)
    (hmatchers : ∀ calls offset len, Refines (Set.Ico (first + 1) last)
      (recursiveMatch library name calls matchers offset len) (find offset len))
    (calls offset len : ℕ) :
    Refines (Set.Ico first last) (matchAt library name calls (.backref first matchers) offset len)
      (searchGroup name first find offset len) := by
  cases calls with
  | zero =>
    apply refines_none
    intro refs
    rw [matchAt]
  | succ calls =>
    have hwhole : Refines (Set.Ico (first + 1) last)
        (recursiveMatch library name calls [.patternList matchers] offset len)
        (find offset len) := by
      have hsingle := refines_recursiveMatch_cons (refines_matchAt_patternList hmatchers)
        (fun calls offset len ↦ refines_recursiveMatch_nil) calls offset len
      rw [Set.union_empty] at hsingle
      convert hsingle using 1
      funext captures
      exact (longest_whole (fun tried ↦ find offset tried captures) len).symm
    have hinside : ∀ backrefNo, backrefNo ≠ first →
        (backrefNo ∈ Set.Ico (first + 1) last ↔ backrefNo ∈ Set.Ico first last) := by
      intro backrefNo hne
      simp only [Set.mem_Ico]
      omega
    intro dirty
    constructor
    · intro refs isMatched after hrun backrefNo houtside
      obtain ⟨inner, hinner, rfl⟩ := matchAt_backref_eq_some hrun
      have hne : backrefNo ≠ first := by
        rintro rfl
        exact houtside ⟨le_rfl, hrange⟩
      have hframe := (hwhole dirty).frame hinner backrefNo
        (fun hmem ↦ houtside ((hinside backrefNo hne).mp hmem))
      rw [Function.update_of_ne hne] at hframe
      cases isMatched with
      | true => simpa [Function.update_of_ne hne] using hframe
      | false => simpa using hframe
    · intro refs isMatched after hrun captures
      obtain ⟨inner, hinner, -⟩ := matchAt_backref_eq_some hrun
      rw [searchGroup, Option.isSome_map]
      exact (hwhole dirty).isMatched_eq hinner _
    · intro refs isMatched after captures hrun hagrees found hfound
      obtain ⟨inner, hinner, rfl⟩ := matchAt_backref_eq_some hrun
      obtain ⟨consumed, hconsumed, rfl⟩ := Option.map_eq_some_iff.mp hfound
      obtain rfl : isMatched = true := by
        rw [(hwhole dirty).isMatched_eq hinner, hconsumed]
        rfl
      have hreset : AgreesOff dirty (Function.update captures first none)
          (Function.update refs first []) := by
        intro backrefNo hclean value hvalue
        by_cases heq : backrefNo = first
        · subst heq
          simp at hvalue
        · rw [Function.update_of_ne heq] at hvalue ⊢
          exact hagrees backrefNo hclean value hvalue
      have hbelow := (hwhole dirty).agrees hinner hreset consumed hconsumed
      intro backrefNo hclean value hvalue
      rw [if_pos rfl]
      by_cases heq : backrefNo = first
      · subst heq
        rw [Function.update_self] at hvalue ⊢
        exact Option.some.inj hvalue
      · rw [Function.update_of_ne heq] at hvalue ⊢
        apply hbelow backrefNo _ value hvalue
        rintro ⟨hdirty, houtside⟩
        exact hclean ⟨hdirty, fun hmem ↦ houtside ((hinside backrefNo heq).mpr hmem)⟩

/-- The iterations of an operand. The results of the operand are clean whenever an iteration was
done, so that the last one may end the search. -/
theorem refines_repeatMatch (hmatcher : ∀ calls offset len,
      Refines range (matchAt library name calls matcher offset len) (find offset len))
    {calls repeatMin repeatMax : ℕ} (hclean : len = 0 → count < repeatMin ∨ Disjoint dirty range) :
    RefinesFrom dirty range
      (repeatMatch library name calls matcher repeatMin repeatMax count offset len)
      (iterate find repeatMin (repeatMax - count) count offset len) := by
  induction calls generalizing count offset len dirty with
  | zero =>
    apply refines_none
    intro refs
    rw [repeatMatch]
  | succ calls ih =>
    cases len with
    | zero =>
      by_cases hcount : count < repeatMin
      · apply refines_failure
        · intro refs
          simp [repeatMatch, hcount]
        · intro captures
          simp [iterate, hcount]
      · have hdisjoint : Disjoint dirty range := (hclean rfl).resolve_left hcount
        apply refinesFrom_success fun captures ↦ captures
        · intro refs
          simp [repeatMatch, hcount, Nat.le_of_not_lt hcount]
        · intro captures
          simp [iterate, Nat.le_of_not_lt hcount]
        · intro captures refs hagrees
          rwa [hdisjoint.sdiff_eq_left]
    | succ len =>
      by_cases hcount : repeatMax ≤ count
      · apply refines_failure
        · intro refs
          simp [repeatMatch, hcount]
        · intro captures
          rw [Nat.sub_eq_zero_of_le hcount, iterate]
      · have hremaining : repeatMax - count = repeatMax - (count + 1) + 1 := by omega
        have hrun : repeatMatch library name (calls + 1) matcher repeatMin repeatMax count offset
            (len + 1) = tryLengths (fun tried ↦
              andThen (matchAt library name calls matcher offset tried)
                (repeatMatch library name calls matcher repeatMin repeatMax (count + 1)
                  (offset + tried) (len + 1 - tried))) (len + 1) := by
          funext refs
          simp [repeatMatch, hcount]
        have hattempt : ∀ tried ≤ len + 1, Refines range
            (andThen (matchAt library name calls matcher offset tried)
              (repeatMatch library name calls matcher repeatMin repeatMax (count + 1)
                (offset + tried) (len + 1 - tried)))
            fun captures ↦ (find offset tried captures).bind
              (iterate find repeatMin (repeatMax - (count + 1)) (count + 1) (offset + tried)
                (len + 1 - tried)) := by
          intro tried _ dirty
          rw [← Set.union_self range]
          exact (hmatcher calls offset tried dirty).andThen
            (ih fun _ ↦ .inr Set.disjoint_sdiff_left)
        rw [hrun, hremaining]
        exact Refines.tryLengths hattempt dirty

theorem refines_matchAt_repetition
    (hmatcher : ∀ calls offset len, Refines (Set.Ico first (first + count))
      (matchAt library name calls matcher offset len) (find offset len)) (bounds : ℕ × ℕ)
    (calls offset len : ℕ) :
    Refines (Set.Ico first (first + count))
      (matchAt library name calls (.repetition matcher bounds.1 bounds.2) offset len)
      (searchRepeated find first count bounds offset len) := by
  cases calls with
  | zero =>
    apply refines_none
    intro refs
    rw [matchAt]
  | succ calls =>
    intro dirty
    by_cases hpassed : bounds.1 = 0 ∧ len = 0
    · apply refinesFrom_success fun captures ↦ captures.forget first count
      · intro refs
        rw [matchAt, if_pos hpassed]
      · intro captures
        rw [searchRepeated, if_pos hpassed]
      · intro captures refs hagrees
        exact hagrees.forget fun backrefNo _ ↦ rfl
    · have hrun : matchAt library name (calls + 1) (.repetition matcher bounds.1 bounds.2) offset
          len = repeatMatch library name calls matcher bounds.1 bounds.2 0 offset len := by
        funext refs
        rw [matchAt, if_neg hpassed]
      have hsearch : searchRepeated find first count bounds offset len =
          iterate find bounds.1 (bounds.2 - 0) 0 offset len := by
        funext captures
        rw [searchRepeated, if_neg hpassed]
        rfl
      rw [hrun, hsearch]
      apply refines_repeatMatch hmatcher
      intro hlen
      exact .inl (Nat.pos_of_ne_zero fun hzero ↦ hpassed ⟨hzero, hlen⟩)

end Matchers

end RegexMatcher

/-! ## Compiled patterns -/

namespace Pattern

open RegexMatcher hiding repetition

variable {library : RegexLibrary} {name : Name} {components : List RegexComponentMatcher}

theorem CompilesExprs.eq_members (hcompiles : CompilesExprs library exprs first components last) :
    components = members library first exprs ∧
      last = first + (exprs.map (markCount library)).sum := by
  induction hcompiles with
  | nil => exact ⟨rfl, rfl⟩
  | @cons expr exprs next count last components hcount _ ih =>
    have hmarks : markCount library expr = count := by rw [markCount, hcount]
    rw [members, List.map_cons, List.sum_cons, hmarks]
    exact ⟨congrArg _ ih.1, ih.2.trans (Nat.add_assoc _ _ _)⟩

variable {patterns : List Pattern}

theorem Compiles.last_eq (hcompiles : Compiles library patterns first matchers last) :
    last = first + listBackrefCount library patterns := by
  induction hcompiles with
  | nil => rfl
  | group _ _ _ ihinner ihlater =>
    rw [ihlater, ihinner, listBackrefCount, backrefCount]
    omega
  | component hexprs _ ih =>
    rw [ih, hexprs.eq_members.2, listBackrefCount, backrefCount]
    simp [Nat.add_assoc]
  | set hexprs _ ih =>
    rw [ih, hexprs.eq_members.2, listBackrefCount, backrefCount]
    simp [Nat.add_assoc]

/-- An item and its matcher at the front of a list. -/
theorem refines_cons {pattern : Pattern} {later : List Pattern} {next : ℕ}
    (hnext : next = first + backrefCount library pattern)
    (hlast : last = next + listBackrefCount library later)
    (hitem : ∀ calls offset len, Refines (Set.Ico first next)
      (matchAt library name calls matcher offset len) (search library name pattern first offset len))
    (hlater : ∀ calls offset len, Refines (Set.Ico next last)
      (recursiveMatch library name calls matchers offset len)
      (searchList library name later next offset len)) (calls offset len : ℕ) :
    Refines (Set.Ico first last)
      (recursiveMatch library name calls (matcher :: matchers) offset len)
      (searchList library name (pattern :: later) first offset len) := by
  have hboth := refines_recursiveMatch_cons hitem hlater calls offset len
  rw [Set.Ico_union_Ico_eq_Ico (by omega) (by omega)] at hboth
  convert hboth using 1
  funext captures
  rw [searchList, hnext]

/-- A set of components with its repetition. -/
theorem refines_matchAt_set {next : ℕ} (hexprs : CompilesExprs library exprs first components next)
    (bounds : ℕ × ℕ) (calls offset len : ℕ) :
    Refines (Set.Ico first next)
      (matchAt library name calls (.repetition
        (.componentSet isInclusion (library.pointerOrder components)) bounds.1 bounds.2) offset len)
      (searchRepeated (searchSet library name isInclusion exprs first) first
        (exprs.map (markCount library)).sum bounds offset len) := by
  obtain ⟨rfl, rfl⟩ := hexprs.eq_members
  apply refines_matchAt_repetition
  intro calls offset len
  cases calls with
  | zero =>
    apply refines_none
    intro refs
    rw [matchAt]
  | succ calls =>
    have hrun : matchAt library name (calls + 1) (.componentSet isInclusion
        (library.pointerOrder (members library first exprs))) offset len = fun refs ↦
          some (matchComponentSet library isInclusion
            (library.pointerOrder (members library first exprs)) name offset len refs) := by
      funext refs
      rw [matchAt]
    rw [hrun]
    exact refines_searchSet (library.pointerOrder_perm _)

/-- The matchers of a compiled pattern refine the search for it. -/
theorem Compiles.refines (hcompiles : Compiles library patterns first matchers last)
    (calls offset len : ℕ) :
    Refines (Set.Ico first last) (recursiveMatch library name calls matchers offset len)
      (searchList library name patterns first offset len) := by
  induction hcompiles generalizing calls offset len with
  | @nil next =>
    rw [Set.Ico_self]
    convert refines_recursiveMatch_nil using 1
    funext captures
    rw [searchList]
  | @group patterns later repetition matcher inner matchers backrefNo next last hinner hwraps hlater
      ihinner ihlater =>
    have hnext : next = backrefNo + (listBackrefCount library patterns + 1) := by
      have := hinner.last_eq
      omega
    have hgroup := refines_matchAt_backref (by omega) ihinner
    refine refines_cons (by rw [backrefCount, hnext]) hlater.last_eq ?_ ihlater calls offset len
    intro calls offset len
    cases hwraps with
    | plain =>
      convert hgroup calls offset len using 1
      funext captures
      rw [search, if_pos rfl]
    | repeated hrepeated =>
      rw [hnext] at hgroup ⊢
      convert refines_matchAt_repetition hgroup repetition.bounds calls offset len using 1
      funext captures
      rw [search, if_neg hrepeated]
  | @component later repetition expr components matchers backrefNo next last hexprs hlater ih =>
    refine refines_cons (by simpa [backrefCount] using hexprs.eq_members.2) hlater.last_eq ?_ ih
      calls offset len
    intro calls offset len
    convert refines_matchAt_set hexprs repetition.bounds calls offset len using 1
    funext captures
    rw [search]
    simp
  | @set later repetition isInclusion exprs components matchers backrefNo next last hexprs hlater
      ih =>
    refine refines_cons (by simpa [backrefCount] using hexprs.eq_members.2) hlater.last_eq ?_ ih
      calls offset len
    intro calls offset len
    convert refines_matchAt_set hexprs repetition.bounds calls offset len using 1
    funext captures
    rw [search]

end Pattern

end NdnCxx
