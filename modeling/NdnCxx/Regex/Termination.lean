import NdnCxx.Foundation.CallDepth
import NdnCxx.Regex.Compile
import Mathlib.Data.Prod.Lex
import Mathlib.Order.WellFoundedSet

/-!
# Termination of the search

Every call of the search leaves fewer components to be matched, or fewer matchers, or fewer
repetitions, in this order. An operand that matches nothing leaves the first two alone, so for an
operand repeated without a limit the depth of the calls is bounded by `MAX_REPETITIONS` only.
-/

namespace NdnCxx

namespace RegexMatcher

/-! ## The calls of the search -/

/-- A call of `match` or of one of the two `recursiveMatch` functions. -/
inductive Call
  | matchAt (matcher : RegexMatcher) (offset len : ℕ)
  | recursiveMatch (matchers : List RegexMatcher) (offset len : ℕ)
  | repeatMatch (matcher : RegexMatcher) (repeatMin repeatMax count offset len : ℕ)

namespace Call

/-- What a call does. -/
def run (library : RegexLibrary) (name : Name) (call : Call) (calls : ℕ) : Backrefs → Outcome :=
  match call with
  | matchAt matcher offset len => RegexMatcher.matchAt library name calls matcher offset len
  | recursiveMatch matchers offset len =>
      RegexMatcher.recursiveMatch library name calls matchers offset len
  | repeatMatch matcher repeatMin repeatMax count offset len =>
      RegexMatcher.repeatMatch library name calls matcher repeatMin repeatMax count offset len

/-- The calls of a loop: one of the matcher for each length, and what comes after it. -/
def attempts (matcher : RegexMatcher) (offset len : ℕ) (next : ℕ → Call) : List Call :=
  (List.range (len + 1)).flatMap fun tried ↦ [matchAt matcher offset tried, next tried]

theorem mem_attempts {matcher : RegexMatcher} {offset len : ℕ} {next : ℕ → Call} {callee : Call} :
    callee ∈ attempts matcher offset len next ↔
      ∃ tried ≤ len, callee = matchAt matcher offset tried ∨ callee = next tried := by
  simp only [attempts, List.mem_flatMap, List.mem_range, List.mem_cons, List.not_mem_nil, or_false,
    Nat.lt_succ_iff]

/-- The calls that a call may make, whichever of its attempts succeed. -/
def callees : Call → List Call
  | matchAt (.patternList matchers) offset len => [recursiveMatch matchers offset len]
  | matchAt (.backref _ matchers) offset len => [recursiveMatch [.patternList matchers] offset len]
  | matchAt (.repetition matcher repeatMin repeatMax) offset len =>
      [repeatMatch matcher repeatMin repeatMax 0 offset len]
  | matchAt (.componentSet _ _) _ _ => []
  | recursiveMatch [] _ _ => []
  | recursiveMatch (matcher :: matchers) offset len =>
      attempts matcher offset len fun tried ↦
        recursiveMatch matchers (offset + tried) (len - tried)
  | repeatMatch matcher repeatMin repeatMax count offset len =>
      if 0 < len ∧ count < repeatMax then
        attempts matcher offset len fun tried ↦
          repeatMatch matcher repeatMin repeatMax (count + 1) (offset + tried) (len - tried)
      else []

end Call

mutual

/-- The number of matchers in a tree; a matcher that only passes a call on counts for it. -/
def size : RegexMatcher → ℕ
  | .patternList matchers => listSize matchers + 1
  | .repetition matcher _ _ => size matcher + 2
  | .backref _ matchers => listSize matchers + 3
  | .componentSet _ _ => 1

def listSize : List RegexMatcher → ℕ
  | [] => 0
  | matcher :: matchers => size matcher + listSize matchers + 1

end

/-- The remaining components, matchers and repetitions of a call, in lexicographic order. -/
def Call.remaining : Call → ℕ ×ₗ ℕ ×ₗ ℕ
  | .matchAt matcher _ len => toLex (len, toLex (size matcher, 0))
  | .recursiveMatch matchers _ len => toLex (len, toLex (listSize matchers, 0))
  | .repeatMatch matcher _ repeatMax count _ len =>
      toLex (len, toLex (size matcher + 1, repeatMax - count))

/-- Fewer matchers with no more components. -/
theorem remaining_lt_of_size {len len' size size' repetitions repetitions' : ℕ} (hlen : len ≤ len')
    (hsize : size < size') :
    (toLex (len, toLex (size, repetitions)) : ℕ ×ₗ ℕ ×ₗ ℕ) <
      toLex (len', toLex (size', repetitions')) := by
  rw [Prod.Lex.toLex_lt_toLex]
  rcases hlen.lt_or_eq with hlt | heq
  · exact .inl hlt
  · exact .inr ⟨heq, Prod.Lex.toLex_lt_toLex.mpr (.inl hsize)⟩

/-- Fewer repetitions with no more components. -/
theorem remaining_lt_of_repetitions {len len' size repetitions repetitions' : ℕ}
    (hlen : len ≤ len') (hrepetitions : repetitions < repetitions') :
    (toLex (len, toLex (size, repetitions)) : ℕ ×ₗ ℕ ×ₗ ℕ) <
      toLex (len', toLex (size, repetitions')) := by
  rw [Prod.Lex.toLex_lt_toLex]
  rcases hlen.lt_or_eq with hlt | heq
  · exact .inl hlt
  · exact .inr ⟨heq, Prod.Lex.toLex_lt_toLex.mpr (.inr ⟨rfl, hrepetitions⟩)⟩

/-- Every call leaves less to be done to the calls it makes. -/
theorem Call.remaining_lt {call callee : Call} (hcallee : callee ∈ call.callees) :
    callee.remaining < call.remaining := by
  cases call with
  | matchAt matcher offset len =>
    cases matcher with
    | patternList matchers =>
      obtain rfl : callee = _ := List.mem_singleton.mp hcallee
      exact remaining_lt_of_size le_rfl (by simp [size])
    | repetition matcher repeatMin repeatMax =>
      obtain rfl : callee = _ := List.mem_singleton.mp hcallee
      exact remaining_lt_of_size le_rfl (by simp [size])
    | backref backrefNo matchers =>
      obtain rfl : callee = _ := List.mem_singleton.mp hcallee
      exact remaining_lt_of_size le_rfl (by simp [size, listSize])
    | componentSet isInclusion components => simp [callees] at hcallee
  | recursiveMatch matchers offset len =>
    cases matchers with
    | nil => simp [callees] at hcallee
    | cons matcher matchers =>
      obtain ⟨tried, htried, rfl | rfl⟩ := mem_attempts.mp hcallee
      · exact remaining_lt_of_size htried (by simp only [listSize]; omega)
      · exact remaining_lt_of_size (Nat.sub_le len tried) (by simp only [listSize]; omega)
  | repeatMatch matcher repeatMin repeatMax count offset len =>
    rw [callees] at hcallee
    split_ifs at hcallee with hgoesOn
    · obtain ⟨tried, htried, rfl | rfl⟩ := mem_attempts.mp hcallee
      · exact remaining_lt_of_size htried (Nat.lt_succ_self _)
      · exact remaining_lt_of_repetitions (Nat.sub_le len tried) (by omega)
    · simp at hcallee

theorem Call.wellFounded_callees : WellFounded fun callee call : Call ↦ callee ∈ call.callees :=
  Subrelation.wf (fun hcallee ↦ remaining_lt hcallee)
    (InvImage.wf Call.remaining wellFounded_lt)

/-! ## A call returns if those it makes do -/

theorem isSome_andThen {first second : Backrefs → Outcome} {refs : Backrefs}
    (hfirst : ∀ refs, (first refs).isSome = true) (hsecond : ∀ refs, (second refs).isSome = true) :
    (andThen first second refs).isSome = true := by
  obtain ⟨⟨isMatched, after⟩, hresult⟩ := Option.isSome_iff_exists.mp (hfirst refs)
  cases isMatched with
  | true =>
    have hthen : andThen first second refs = second after := by simp [andThen, hresult]
    rw [hthen]
    exact hsecond after
  | false => simp [andThen, hresult]

theorem isSome_tryLengths {attempt : ℕ → Backrefs → Outcome} {len : ℕ}
    (hattempt : ∀ tried ≤ len, ∀ refs, (attempt tried refs).isSome = true) (refs : Backrefs) :
    (tryLengths attempt len refs).isSome = true := by
  induction len generalizing refs with
  | zero => exact hattempt 0 le_rfl refs
  | succ len ih =>
    obtain ⟨⟨isMatched, after⟩, hresult⟩ :=
      Option.isSome_iff_exists.mp (hattempt (len + 1) le_rfl refs)
    cases isMatched with
    | true => simp [tryLengths, hresult]
    | false =>
      have hnext : tryLengths attempt (len + 1) refs = tryLengths attempt len after := by
        simp [tryLengths, hresult]
      rw [hnext]
      exact ih (fun tried htried ↦ hattempt tried (Nat.le_succ_of_le htried)) after

theorem Call.isSome_run {library : RegexLibrary} {name : Name} (call : Call) (calls : ℕ)
    (hcallees : ∀ callee ∈ call.callees, ∀ refs, (callee.run library name calls refs).isSome = true)
    (refs : Backrefs) : (call.run library name (calls + 1) refs).isSome = true := by
  cases call with
  | matchAt matcher offset len =>
    cases matcher with
    | patternList matchers =>
      rw [run, RegexMatcher.matchAt]
      exact hcallees _ List.mem_cons_self refs
    | repetition matcher repeatMin repeatMax =>
      rw [run, RegexMatcher.matchAt]
      split_ifs with hpassed
      · rfl
      · exact hcallees _ List.mem_cons_self refs
    | backref backrefNo matchers =>
      obtain ⟨⟨isMatched, after⟩, hresult⟩ := Option.isSome_iff_exists.mp
        (hcallees _ List.mem_cons_self (Function.update refs backrefNo []))
      rw [run] at hresult
      rw [run, RegexMatcher.matchAt]
      cases isMatched <;> simp [hresult]
    | componentSet isInclusion components =>
      rw [run, RegexMatcher.matchAt]
      rfl
  | recursiveMatch matchers offset len =>
    cases matchers with
    | nil =>
      rw [run, RegexMatcher.recursiveMatch]
      rfl
    | cons matcher matchers =>
      rw [run, RegexMatcher.recursiveMatch]
      apply isSome_tryLengths
      intro tried htried refs
      apply isSome_andThen
      · exact hcallees (matchAt matcher offset tried) (mem_attempts.mpr ⟨tried, htried, .inl rfl⟩)
      · exact hcallees (recursiveMatch matchers (offset + tried) (len - tried))
          (mem_attempts.mpr ⟨tried, htried, .inr rfl⟩)
  | repeatMatch matcher repeatMin repeatMax count offset len =>
    rw [run, RegexMatcher.repeatMatch]
    split_ifs with hlimit hfew henough
    · rfl
    · rfl
    · rfl
    · have hgoesOn : 0 < len ∧ count < repeatMax := by omega
      rw [callees, if_pos hgoesOn] at hcallees
      apply isSome_tryLengths
      intro tried htried refs
      apply isSome_andThen
      · exact hcallees (matchAt matcher offset tried) (mem_attempts.mpr ⟨tried, htried, .inl rfl⟩)
      · exact hcallees (repeatMatch matcher repeatMin repeatMax (count + 1) (offset + tried)
          (len - tried)) (mem_attempts.mpr ⟨tried, htried, .inr rfl⟩)

theorem Call.returns (library : RegexLibrary) (name : Name) (call : Call) :
    CallDepth.Returns (run library name) call :=
  CallDepth.returns_of_wellFounded wellFounded_callees isSome_run call

/-! ## The counter of the repetitions -/

mutual

def LimitsFit : RegexMatcher → Prop
  | .patternList matchers => ListLimitsFit matchers
  | .repetition matcher _ repeatMax => LimitsFit matcher ∧ repeatMax ≤ maxRepetitions
  | .backref _ matchers => ListLimitsFit matchers
  | .componentSet _ _ => True

def ListLimitsFit : List RegexMatcher → Prop
  | [] => True
  | matcher :: matchers => LimitsFit matcher ∧ ListLimitsFit matchers

end

/-- The limits of a call are values of `size_t`, and so is the counter: it does not wrap around. -/
def Call.Fits : Call → Prop
  | .matchAt matcher _ _ => LimitsFit matcher
  | .recursiveMatch matchers _ _ => ListLimitsFit matchers
  | .repeatMatch matcher _ repeatMax count _ _ =>
      LimitsFit matcher ∧ count ≤ repeatMax ∧ repeatMax ≤ maxRepetitions

theorem Call.Fits.callee {call callee : Call} (hfits : call.Fits) (hcallee : callee ∈ call.callees) :
    callee.Fits := by
  cases call with
  | matchAt matcher offset len =>
    cases matcher with
    | patternList matchers =>
      obtain rfl : callee = _ := List.mem_singleton.mp hcallee
      simpa only [Fits, LimitsFit] using hfits
    | repetition matcher repeatMin repeatMax =>
      obtain rfl : callee = _ := List.mem_singleton.mp hcallee
      simpa only [Fits, LimitsFit, Nat.zero_le, true_and] using hfits
    | backref backrefNo matchers =>
      obtain rfl : callee = _ := List.mem_singleton.mp hcallee
      simpa only [Fits, LimitsFit, ListLimitsFit, and_true] using hfits
    | componentSet isInclusion components => simp [callees] at hcallee
  | recursiveMatch matchers offset len =>
    cases matchers with
    | nil => simp [callees] at hcallee
    | cons matcher matchers =>
      simp only [Fits, ListLimitsFit] at hfits
      obtain ⟨tried, -, rfl | rfl⟩ := mem_attempts.mp hcallee
      · exact hfits.1
      · exact hfits.2
  | repeatMatch matcher repeatMin repeatMax count offset len =>
    obtain ⟨hmatcher, hcount, hlimit⟩ := hfits
    rw [callees] at hcallee
    split_ifs at hcallee with hgoesOn
    · obtain ⟨tried, -, rfl | rfl⟩ := mem_attempts.mp hcallee
      · exact hmatcher
      · exact ⟨hmatcher, hgoesOn.2, hlimit⟩
    · simp at hcallee

theorem atoi_le (digits : List Char) : atoi digits ≤ maxRepetitions := by
  simp only [atoi, maxRepetitions]
  split_ifs <;> omega

end RegexMatcher

namespace Pattern

open RegexMatcher

theorem Repetition.bounds_le (repetition : Repetition) :
    repetition.bounds.2 ≤ maxRepetitions := by
  cases repetition with
  | exactly count => exact atoi_le count
  | atMost high => exact atoi_le high
  | between low high => exact atoi_le high
  | atLeast low => exact le_rfl
  | once | zeroOrOne | oneOrMore | zeroOrMore => decide

theorem Compiles.listLimitsFit {library : RegexLibrary} {patterns : List Pattern}
    {matchers : List RegexMatcher} {first last : ℕ}
    (hcompiles : Compiles library patterns first matchers last) : ListLimitsFit matchers := by
  induction hcompiles with
  | nil => trivial
  | @group patterns later repetition matcher inner matchers _ _ _ _ hwraps _ ihinner ihlater =>
    refine ⟨?_, ihlater⟩
    cases hwraps with
    | plain => simpa only [LimitsFit] using ihinner
    | repeated => exact ⟨by simpa only [LimitsFit] using ihinner, repetition.bounds_le⟩
  | @component later repetition expr components matchers _ _ _ _ _ ih =>
    exact ⟨⟨trivial, repetition.bounds_le⟩, ih⟩
  | @set later repetition isInclusion exprs components matchers _ _ _ _ _ ih =>
    exact ⟨⟨trivial, repetition.bounds_le⟩, ih⟩

end Pattern

namespace RegexTopMatcher

open RegexMatcher

variable {library : RegexLibrary}

def patternLists (top : RegexTopMatcher) : List (List RegexMatcher) :=
  top.primary :: (top.secondary.map Prod.fst).toList

variable {top : RegexTopMatcher} {text : List Char}

theorem listLimitsFit_of_compile (hok : compile library text = .ok top) :
    ∀ matchers ∈ top.patternLists, ListLimitsFit matchers := by
  have hcompiled : ∀ {expr matchers size}, compileText library expr = .ok (matchers, size) →
      ListLimitsFit matchers := by
    intro expr matchers size hexpr
    obtain ⟨patterns, -, hcompiles⟩ := compilePatternList_eq_ok hexpr
    exact hcompiles.listLimitsFit
  unfold compile at hok
  generalize hexpr : (if text.getLast? ≠ some '$' then text ++ anyComponents else text.dropLast) =
    expr at hok
  dsimp only at hok
  split_ifs at hok
  · obtain ⟨⟨matchers, size⟩, hsecondary, hok⟩ := bind_eq_ok_iff.mp hok
    obtain ⟨⟨primary, primarySize⟩, hprimary, hresult⟩ := bind_eq_ok_iff.mp hok
    cases hresult
    simpa [patternLists] using ⟨hcompiled hprimary, hcompiled hsecondary⟩
  · obtain ⟨⟨primary, primarySize⟩, hprimary, hresult⟩ := bind_eq_ok_iff.mp hok
    cases hresult
    simpa [patternLists] using hcompiled hprimary

/-- A match returns once both of its searches do. -/
theorem isSome_matchName {name : Name} {calls : ℕ}
    (hreturns : ∀ matchers ∈ top.patternLists, ∀ refs,
      (matchAt library name calls (.patternList matchers) 0 name.length refs).isSome = true)
    (state : State) : (top.matchName library calls name state).isSome = true := by
  obtain ⟨⟨isMatched, primaryRefs⟩, hprimary⟩ := Option.isSome_iff_exists.mp
    (hreturns top.primary List.mem_cons_self state.primaryRefs)
  cases isMatched with
  | true => simp [matchName, hprimary]
  | false =>
    cases hsecondary : top.secondary with
    | none => simp [matchName, hprimary, hsecondary]
    | some secondary =>
      obtain ⟨⟨isMatched, secondaryRefs⟩, hresult⟩ := Option.isSome_iff_exists.mp
        (hreturns secondary.1 (by simp [patternLists, hsecondary]) state.secondaryRefs)
      cases isMatched <;> simp [matchName, hprimary, hsecondary, hresult]

/-- A match returns for every large enough depth of calls, in every state. -/
theorem exists_depth_matchName (library : RegexLibrary) (top : RegexTopMatcher) (name : Name) :
    ∃ depth, ∀ calls ≥ depth, ∀ state,
      (top.matchName library calls name state).isSome = true := by
  have hreturns : ∀ call ∈ top.patternLists.map fun matchers ↦
      Call.matchAt (.patternList matchers) 0 name.length,
      CallDepth.Returns (Call.run library name) call := fun call _ ↦ call.returns library name
  obtain ⟨depth, hdepth⟩ := CallDepth.exists_depth hreturns
  refine ⟨depth, ?_⟩
  intro calls hcalls state
  apply isSome_matchName
  intro matchers hmatchers
  exact hdepth _ (List.mem_map_of_mem hmatchers) calls hcalls

/-- A match of a compiled pattern terminates: every call made by one of the two `recursiveMatch`
functions leaves less to be done, no counter of repetitions wraps around on the way, and with enough
depth the match returns in every state. -/
theorem matchName_terminates (hok : compile library text = .ok top) (name : Name) :
    (∀ call : Call, ∀ callee ∈ call.callees, callee.remaining < call.remaining) ∧
      (∀ matchers ∈ top.patternLists, ∀ call : Call,
        Relation.ReflTransGen (fun caller callee : Call ↦ callee ∈ caller.callees)
          (.matchAt (.patternList matchers) 0 name.length) call → call.Fits) ∧
      ∃ depth, ∀ calls ≥ depth, ∀ state,
        (top.matchName library calls name state).isSome = true := by
  refine ⟨fun call callee ↦ Call.remaining_lt, ?_, exists_depth_matchName library top name⟩
  intro matchers hmatchers call hreaches
  induction hreaches with
  | refl => simpa only [Call.Fits, LimitsFit] using listLimitsFit_of_compile hok matchers hmatchers
  | tail _ hcallee ih => exact ih.callee hcallee

/-- `(<a>?)*`, whose operand matches the empty sequence. -/
theorem matchName_terminates_optional :
    ∃ top, compile .literal ['(', '<', 'a', '>', '?', ')', '*'] = .ok top ∧
      ∃ depth, ∀ calls ≥ depth, ∀ state,
        (top.matchName .literal calls [.generic [98]] state).isSome = true := by
  have hok : compile .literal ['(', '<', 'a', '>', '?', ')', '*'] = .ok _ := rfl
  exact ⟨_, hok, (matchName_terminates hok [.generic [98]]).2.2⟩

end RegexTopMatcher

end NdnCxx
