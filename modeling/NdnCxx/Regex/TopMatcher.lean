import NdnCxx.Regex.Refinement

/-!
# Matching and expanding names

What a compiled pattern promises of `match` and `expand`: it accepts the names of its language, and
the back references of the groups that took part in a match are what these consumed, whatever was
matched before. The results of the other groups are never reset.
-/

namespace NdnCxx

/-! ## Languages of top patterns -/

variable {name : Name} {top : RegexTopMatcher} {patterns : List Pattern}

namespace Pattern

variable {library : RegexLibrary} {later : List Pattern}

theorem listLanguage_append :
    listLanguage library (patterns ++ later) =
      listLanguage library patterns * listLanguage library later := by
  induction patterns with
  | nil => rw [List.nil_append, listLanguage, one_mul]
  | cons pattern patterns ih => rw [List.cons_append, listLanguage, listLanguage, ih, mul_assoc]

theorem RepeatsNonempty.append (hpatterns : RepeatsNonempty library patterns)
    (hlater : RepeatsNonempty library later) : RepeatsNonempty library (patterns ++ later) := by
  induction hpatterns with
  | nil => exact hlater
  | group hinner hoperand _ _ ih => exact .group hinner hoperand ih
  | component _ ih => exact .component ih
  | set _ ih => exact .set ih

theorem CountsBelow.append {bound : ℕ} (hpatterns : CountsBelow bound patterns)
    (hlater : CountsBelow bound later) : CountsBelow bound (patterns ++ later) := by
  induction hpatterns with
  | nil => exact hlater
  | group hinner hcounts _ _ ih => exact .group hinner hcounts ih
  | component hcounts _ ih => exact .component hcounts ih
  | set hcounts _ ih => exact .set hcounts ih

variable (library) in
/-- What a list of items finds in a whole name, with the number of its back references. -/
def findList (name : Name) (patterns : List Pattern) : Option (Captures × ℕ) :=
  (searchList library name patterns 0 0 name.length fun _ ↦ none).map fun captures ↦
    (captures, listBackrefCount library patterns)

theorem isSome_findList_iff (hlength : name.length < 2 ^ 64)
    (hnonempty : RepeatsNonempty library patterns) (hcounts : CountsBelow (2 ^ 31) patterns) :
    (findList library name patterns).isSome = true ↔ name ∈ listLanguage library patterns := by
  have hwhole : RegexMatcher.slice name 0 name.length = name := by simp [RegexMatcher.slice]
  have hmax : name.length ≤ RegexMatcher.maxRepetitions := by
    rw [RegexMatcher.maxRepetitions]
    omega
  rw [findList, Option.isSome_map]
  conv_rhs => rw [← hwhole]
  exact decides_searchList hmax hnonempty hcounts 0 name.length (by simp) _

/-- Any components may stand where an anchor is absent. -/
theorem language_anyComponents
    (hany : ∀ text, (library.regexMatch ['.', '*'] text).isSome = true) :
    language library anyComponents = ⊤ := by
  have haccepts : ∀ word : Name, word ∈ single (Accepts library ['.', '*']) ^ word.length := by
    intro word
    induction word with
    | nil => rfl
    | cons target word ih =>
      rw [List.length_cons, pow_succ']
      exact Language.append_mem_mul (mem_single_iff.mpr (.inr (hany target.toUri))) ih
  rw [anyComponents, language]
  ext word
  constructor
  · intro _
    trivial
  · intro _
    exact ⟨word.length, Nat.zero_le _, by simp [Repetition.greatest], haccepts word⟩

end Pattern

namespace TopPattern

open Pattern

variable {library : RegexLibrary} {pattern : TopPattern}

theorem listLanguage_primaryPatterns
    (hany : ∀ text, (library.regexMatch ['.', '*'] text).isSome = true) :
    listLanguage library pattern.primaryPatterns =
      listLanguage library pattern.patterns * outside pattern.isEndAnchored := by
  rw [primaryPatterns, listLanguage_append]
  cases pattern.isEndAnchored with
  | true => simp [listLanguage, outside]
  | false => simp [listLanguage, outside, language_anyComponents hany]

/-- A name of the language is found from its start, or behind other components. -/
theorem mem_language_iff (hany : ∀ text, (library.regexMatch ['.', '*'] text).isSome = true) :
    name ∈ pattern.language library ↔
      name ∈ listLanguage library pattern.primaryPatterns ∨ pattern.isStartAnchored = false ∧
        name ∈ listLanguage library (anyComponents :: pattern.primaryPatterns) := by
  rw [language, ← listLanguage_primaryPatterns hany]
  cases pattern.isStartAnchored with
  | true => simp [outside]
  | false =>
    rw [listLanguage, language_anyComponents hany]
    constructor
    · intro hmem
      exact .inr ⟨rfl, hmem⟩
    · rintro (hmem | ⟨-, hmem⟩)
      · exact Language.append_mem_mul (a := []) trivial hmem
      · exact hmem

variable (library) in
/-- What a pattern finds in a name: from the start of the name, or else behind other components if
there is no anchor. -/
def find (pattern : TopPattern) (name : Name) : Option (Captures × ℕ) :=
  (findList library name pattern.primaryPatterns).or
    (if pattern.isStartAnchored then none
      else findList library name (anyComponents :: pattern.primaryPatterns))

/-- A pattern finds the names of its language. -/
theorem isSome_find_iff (hany : ∀ text, (library.regexMatch ['.', '*'] text).isSome = true)
    (hnonempty : RepeatsNonempty library pattern.patterns)
    (hcounts : CountsBelow (2 ^ 31) pattern.patterns) (hlength : name.length < 2 ^ 64) :
    (pattern.find library name).isSome = true ↔ name ∈ pattern.language library := by
  have hprimary : RepeatsNonempty library pattern.primaryPatterns ∧
      CountsBelow (2 ^ 31) pattern.primaryPatterns := by
    rw [primaryPatterns]
    cases pattern.isEndAnchored with
    | true => exact ⟨hnonempty.append .nil, hcounts.append .nil⟩
    | false =>
      exact ⟨hnonempty.append (.component .nil),
        hcounts.append (.component (by simp [Repetition.counts]) .nil)⟩
  have hsecondary : (findList library name (anyComponents :: pattern.primaryPatterns)).isSome =
      true ↔ name ∈ listLanguage library (anyComponents :: pattern.primaryPatterns) :=
    isSome_findList_iff hlength (.component hprimary.1)
      (.component (by simp [Repetition.counts]) hprimary.2)
  rw [mem_language_iff hany, ← isSome_findList_iff hlength hprimary.1 hprimary.2, ← hsecondary,
    find, Option.isSome_or, Bool.or_eq_true]
  cases pattern.isStartAnchored <;> simp

end TopPattern

variable {calls : ℕ} {text : List Char}

namespace RegexTopMatcher

open RegexMatcher Pattern

variable {library : RegexLibrary}

/-! ## Matching -/

variable {isMatched : Bool} {pattern : TopPattern}

/-- A match of a pattern list finds what its items find, and keeps what the groups consumed that
took part. -/
theorem matchAt_eq_some {matchers : List RegexMatcher} {size : ℕ} {refs after : Backrefs}
    (hcompiles : Compiles library patterns 0 matchers size)
    (hrun : matchAt library name calls (.patternList matchers) 0 name.length refs =
      some (isMatched, after)) :
    isMatched = (findList library name patterns).isSome ∧
      ∀ found ∈ findList library name patterns, size = found.2 ∧
        ∀ backrefNo, ∀ consumed ∈ found.1 backrefNo, after backrefNo = consumed := by
  have hrefines : RefinesFrom ∅ (Set.Ico 0 size)
      (matchAt library name calls (.patternList matchers) 0 name.length)
      (searchList library name patterns 0 0 name.length) :=
    refines_matchAt_patternList hcompiles.refines calls 0 name.length ∅
  have hnothing : AgreesOff ∅ (fun _ ↦ none) refs := by
    intro backrefNo _ consumed hconsumed
    cases hconsumed
  constructor
  · rw [findList, Option.isSome_map]
    exact hrefines.isMatched_eq hrun _
  · intro found hfound
    obtain ⟨captures, hcaptures, rfl⟩ := Option.map_eq_some_iff.mp hfound
    refine ⟨by rw [hcompiles.last_eq, Nat.zero_add], ?_⟩
    intro backrefNo
    exact hrefines.agrees hrun hnothing captures hcaptures backrefNo (by simp)

/-- A match by the primary matcher, or by the secondary one if there is one. -/
theorem matchName_eq_some {state after : State}
    (hrun : top.matchName library calls name state = some (isMatched, after)) :
    (∃ refs, matchAt library name calls (.patternList top.primary) 0 name.length
        state.primaryRefs = some (true, refs) ∧ isMatched = true ∧ after.matchResult = name ∧
        usedRefs after = refs ∧ top.usedSize after = top.primarySize) ∨
      ∃ refs, matchAt library name calls (.patternList top.primary) 0 name.length
        state.primaryRefs = some (false, refs) ∧
        ((top.secondary = none ∧ isMatched = false) ∨
          ∃ matchers size secondaryRefs, top.secondary = some (matchers, size) ∧
            matchAt library name calls (.patternList matchers) 0 name.length
              state.secondaryRefs = some (isMatched, secondaryRefs) ∧
            (isMatched = true → after.matchResult = name ∧ usedRefs after = secondaryRefs ∧
              top.usedSize after = size)) := by
  have hwhole : slice name 0 name.length = name := by simp [slice]
  unfold matchName at hrun
  obtain ⟨⟨isPrimary, refs⟩, hprimary, hrun⟩ := Option.bind_eq_some_iff.mp hrun
  cases isPrimary with
  | true =>
    cases hrun
    exact .inl ⟨refs, hprimary, rfl, hwhole, rfl, rfl⟩
  | false =>
    refine .inr ⟨refs, hprimary, ?_⟩
    cases hsecondary : top.secondary with
    | none =>
      rw [hsecondary] at hrun
      cases hrun
      exact .inl ⟨rfl, rfl⟩
    | some secondary =>
      obtain ⟨matchers, size⟩ := secondary
      simp only [hsecondary, Bool.false_eq_true, if_false] at hrun
      obtain ⟨⟨isSecondary, secondaryRefs⟩, hrunSecondary, hrun⟩ :=
        Option.bind_eq_some_iff.mp hrun
      refine .inr ⟨matchers, size, secondaryRefs, rfl, ?_⟩
      cases isSecondary with
      | true =>
        cases hrun
        exact ⟨hrunSecondary, fun _ ↦ ⟨hwhole, rfl, by simp [usedSize, hsecondary]⟩⟩
      | false =>
        cases hrun
        exact ⟨hrunSecondary, fun hmatched ↦ by cases hmatched⟩

/-- A match finds what the pattern finds, and keeps what the groups consumed that took part. -/
theorem CompiledFrom.matchName_eq {state after : State}
    (hcompiled : CompiledFrom library pattern top)
    (hrun : top.matchName library calls name state = some (isMatched, after)) :
    isMatched = (pattern.find library name).isSome ∧
      ∀ found ∈ pattern.find library name,
        after.matchResult = name ∧ top.usedSize after = found.2 ∧
          ∀ backrefNo, ∀ consumed ∈ found.1 backrefNo, usedRefs after backrefNo = consumed := by
  rw [TopPattern.find]
  rcases matchName_eq_some hrun with ⟨refs, hprimary, rfl, hresult, hused, hlast⟩ |
    ⟨refs, hprimary, hsecondary⟩
  · obtain ⟨hsome, hrefs⟩ := matchAt_eq_some hcompiled.primary hprimary
    rw [Option.or_of_isSome hsome.symm]
    refine ⟨hsome, ?_⟩
    intro found hfound
    obtain ⟨hsize, hagrees⟩ := hrefs found hfound
    exact ⟨hresult, hlast.trans hsize, hused ▸ hagrees⟩
  · obtain ⟨hnone, -⟩ := matchAt_eq_some hcompiled.primary hprimary
    rw [Option.isNone_iff_eq_none.mp (Option.isSome_eq_false_iff.mp hnone.symm), Option.none_or]
    have hstart := hcompiled.secondary
    rcases hsecondary with ⟨habsent, rfl⟩ | ⟨matchers, size, secondaryRefs, hpresent, hrun, hafter⟩
    · cases hanchored : pattern.isStartAnchored with
      | true => simp
      | false => simp [hanchored, habsent] at hstart
    · cases hanchored : pattern.isStartAnchored with
      | true => simp [hanchored, hpresent] at hstart
      | false =>
        obtain ⟨matchers', size', hsame, hcompiles⟩ : ∃ matchers size,
            top.secondary = some (matchers, size) ∧ Compiles library
              (Pattern.anyComponents :: pattern.primaryPatterns) 0 matchers size := by
          simpa [hanchored] using hstart
        obtain ⟨rfl, rfl⟩ : matchers = matchers' ∧ size = size' := by
          simpa [hpresent] using hsame
        obtain ⟨hsome, hrefs⟩ := matchAt_eq_some hcompiles hrun
        rw [if_neg Bool.false_ne_true]
        refine ⟨hsome, ?_⟩
        intro found hfound
        obtain ⟨hsize, hagrees⟩ := hrefs found hfound
        obtain ⟨hresult, hused, hlast⟩ := hafter (hsome.trans (Option.isSome_of_mem hfound))
        exact ⟨hresult, hlast.trans hsize, hused ▸ hagrees⟩

/-- With enough depth for its calls, a match returns whether the name is in the language. -/
theorem CompiledFrom.exists_matchName_iff
    (hany : ∀ text, (library.regexMatch ['.', '*'] text).isSome = true)
    (hcompiled : CompiledFrom library pattern top)
    (hrepeats : RepeatsNonempty library pattern.patterns)
    (hcounts : CountsBelow (2 ^ 31) pattern.patterns) (hlength : name.length < 2 ^ 64) :
    ∃ depth, ∀ calls ≥ depth, ∀ state,
      ∃ isMatched after, top.matchName library calls name state = some (isMatched, after) ∧
        (isMatched = true ↔ name ∈ pattern.language library) := by
  obtain ⟨depth, hdepth⟩ := exists_depth_matchName library top name
  refine ⟨depth, ?_⟩
  intro calls hcalls state
  obtain ⟨⟨isMatched, after⟩, hrun⟩ := Option.isSome_iff_exists.mp (hdepth calls hcalls state)
  refine ⟨isMatched, after, hrun, ?_⟩
  rw [(hcompiled.matchName_eq hrun).1]
  exact TopPattern.isSome_find_iff hany hrepeats hcounts hlength

/-- A text that compiles is spelled by exactly one pattern, and a match returns whether the name is
in the language of this pattern. The number of components of a name is a `size_t`, and `.*` matches
every text. -/
theorem matchName_iff_mem_language
    (hany : ∀ text, (library.regexMatch ['.', '*'] text).isSome = true) (hnonempty : text ≠ [])
    (hok : compile library text = .ok top) :
    ∃ pattern : TopPattern, pattern.Spells text ∧
      (∀ other : TopPattern, other.Spells text → other = pattern) ∧
      (RepeatsNonempty library pattern.patterns → CountsBelow (2 ^ 31) pattern.patterns →
        ∀ name : Name, name.length < 2 ^ 64 → ∃ depth, ∀ calls ≥ depth, ∀ state,
          ∃ isMatched after, top.matchName library calls name state = some (isMatched, after) ∧
            (isMatched = true ↔ name ∈ pattern.language library)) := by
  obtain ⟨pattern, hspells, hcompiled⟩ := exists_of_compile hnonempty hok
  refine ⟨pattern, hspells, fun other hother ↦ hother.unique hspells, ?_⟩
  intro hrepeats hcounts name hlength
  exact hcompiled.exists_matchName_iff hany hrepeats hcounts hlength

/-- `<a>{2}` -/
theorem matchName_iff_mem_language_twice :
    ∃ top, compile .literal ['<', 'a', '>', '{', '2', '}'] = .ok top ∧
      ∃ pattern : TopPattern, pattern.Spells ['<', 'a', '>', '{', '2', '}'] ∧
        ∃ depth, ∀ calls ≥ depth, ∀ state,
          ∃ isMatched after, top.matchName .literal calls
              [.generic [98], .generic [97], .generic [97]] state = some (isMatched, after) ∧
            (isMatched = true ↔ [.generic [98], .generic [97], .generic [97]] ∈
              pattern.language .literal) := by
  have hok : compile .literal ['<', 'a', '>', '{', '2', '}'] = .ok _ := rfl
  obtain ⟨pattern, hspells, hunique, hmatch⟩ :=
    matchName_iff_mem_language (by simp [RegexLibrary.literal]) (by simp) hok
  have hpattern : TopPattern.Spells ⟨false, [.component ['a'] (.exactly ['2'])], false⟩
      ['<', 'a', '>', '{', '2', '}'] := by
    have hbalanced : Balanced ['a'] := balanced_of_notMem (by decide) (by decide)
    have hdecimal : (Repetition.exactly ['2']).IsDecimal := by
      simp [Repetition.IsDecimal, Repetition.counts, isDigits]
    exact ⟨_, .component hbalanced hdecimal .nil, rfl⟩
  obtain rfl := hunique _ hpattern
  exact ⟨_, hok, _, hspells, hmatch (.component .nil) (.component (by decide) .nil) _ (by decide)⟩

/-! ## Expanding -/

/-- The numbers of the back references in an expand string, up to an item in a wrong format. -/
def references : ℕ → List Char → List ℕ
  | _, [] => []
  | 0, _ :: _ => []
  | rounds + 1, chars =>
      match getItemFromExpand chars with
      | .ok (.backref digits, rest) => decimal digits :: references rounds rest
      | .ok (.literal _, rest) => references rounds rest
      | .error _ => []

variable {matchResult : Name}

theorem expandItem_congr {refs refs' : Backrefs} {backrefNo : ℕ} {digits : List Char}
    (hrefs : 0 < decimal digits → decimal digits ≤ backrefNo →
      refs (decimal digits - 1) = refs' (decimal digits - 1)) :
    expandItem matchResult refs backrefNo (.backref digits) =
      expandItem matchResult refs' backrefNo (.backref digits) := by
  simp only [expandItem]
  split_ifs with hlarge hzero hinside
  · rfl
  · rfl
  · rw [hrefs (Nat.pos_of_ne_zero hzero) hinside]
  · rfl

/-- `expand` looks at no other results than those the string refers to. -/
theorem expandLoop_congr {refs refs' : Backrefs} {backrefNo rounds : ℕ} {chars : List Char}
    (hrefs : ∀ number ∈ references rounds chars, 0 < number →
      number ≤ backrefNo → refs (number - 1) = refs' (number - 1)) :
    expandLoop matchResult refs backrefNo rounds chars =
      expandLoop matchResult refs' backrefNo rounds chars := by
  induction rounds generalizing chars with
  | zero => cases chars <;> rfl
  | succ rounds ih =>
    cases chars with
    | nil => rfl
    | cons char chars =>
      simp only [references] at hrefs
      simp only [expandLoop]
      cases hfound : getItemFromExpand (char :: chars) with
      | error error => rfl
      | ok found =>
        obtain ⟨item, rest⟩ := found
        cases item with
        | literal text =>
          simp only [hfound] at hrefs
          simp only [bind, Except.bind, expandItem, ih hrefs]
        | backref digits =>
          simp only [hfound, List.mem_cons, forall_eq_or_imp] at hrefs
          simp only [bind, Except.bind, expandItem_congr hrefs.1, ih hrefs.2]

end RegexTopMatcher

namespace TopPattern

open RegexTopMatcher

variable (library : RegexLibrary)

/-- Every back reference of an expand string is to a group that takes part in the match: the last
time the group was met, it was not passed over by a repetition without an iteration, nor is it part
of a set in which another member accepted the component, or more than one did. -/
def TakesPart (pattern : TopPattern) (name : Name) (expandStr : List Char) : Prop :=
  ∀ found ∈ pattern.find library name, ∀ number ∈ references expandStr.length expandStr,
    0 < number → number ≤ found.2 → (found.1 (number - 1)).isSome = true

/-- What an expand string stands for after a match: a back reference is what its group consumed,
and nothing if the group took no part. -/
def expansion (pattern : TopPattern) (name : Name) (expandStr : List Char) :
    Option (Except Error Name) :=
  (pattern.find library name).map fun found ↦
    expandLoop name (fun backrefNo ↦ (found.1 backrefNo).getD []) found.2 expandStr.length expandStr

end TopPattern

namespace RegexTopMatcher

variable {library : RegexLibrary}

def matchStep (library : RegexLibrary) (top : RegexTopMatcher) (calls : ℕ) (state : State)
    (name : Name) : Option State := (top.matchName library calls name state).map Prod.snd

variable {pattern : TopPattern}

theorem CompiledFrom.expand_eq {state after : State} (hcompiled : CompiledFrom library pattern top)
    (hmatch : top.matchName library calls name state = some (true, after)) {expandStr : List Char}
    (htakesPart : pattern.TakesPart library name expandStr) :
    some (top.expand after expandStr) = pattern.expansion library name expandStr := by
  obtain ⟨hsome, hkeeps⟩ := hcompiled.matchName_eq hmatch
  obtain ⟨found, hfound⟩ := Option.isSome_iff_exists.mp hsome.symm
  obtain ⟨hresult, hsize, hrefs⟩ := hkeeps found hfound
  have hused : expandLoop name (usedRefs after) found.2 expandStr.length expandStr =
      expandLoop name (fun backrefNo ↦ (found.1 backrefNo).getD []) found.2 expandStr.length
        expandStr := by
    apply expandLoop_congr
    intro number hnumber hpositive hinside
    obtain ⟨consumed, hconsumed⟩ := Option.isSome_iff_exists.mp
      (htakesPart found hfound number hnumber hpositive hinside)
    rw [hrefs _ consumed hconsumed, hconsumed]
    rfl
  rw [expand, hresult, hsize, hused, TopPattern.expansion, hfound]
  rfl

/-- After any run of matches, a match that succeeds is expanded from the pattern, the string and
the name alone, if the groups that the string refers to take part in it. -/
theorem expand_eq_expansion (hnonempty : text ≠ []) (hok : compile library text = .ok top)
    (hspells : pattern.Spells text) (calls : ℕ) (history : List Name) :
    ∀ state, Run.run (top.matchStep library calls) State.initial history = some state →
      ∀ name after, top.matchName library calls name state = some (true, after) →
        ∀ expandStr, pattern.TakesPart library name expandStr →
          some (top.expand after expandStr) = pattern.expansion library name expandStr := by
  obtain ⟨other, hother, hcompiled⟩ := exists_of_compile hnonempty hok
  obtain rfl := hspells.unique hother
  intro state _ name after hmatch expandStr htakesPart
  exact hcompiled.expand_eq hmatch htakesPart

def optionalFirst : List Char := ['^', '(', '<', 'a', '>', ')', '?', '<', 'a', '>', '$']

def optionalFirstPattern : TopPattern :=
  ⟨true, [.group [.component ['a'] .once] .zeroOrOne, .component ['a'] .once], true⟩

theorem spells_optionalFirst : optionalFirstPattern.Spells optionalFirst := by
  have hbalanced : Pattern.Balanced ['a'] :=
    Pattern.balanced_of_notMem (by decide) (by decide)
  have honce : Pattern.Repetition.once.IsDecimal := by
    simp [Pattern.Repetition.IsDecimal, Pattern.Repetition.counts]
  have hoptional : Pattern.Repetition.zeroOrOne.IsDecimal := by
    simp [Pattern.Repetition.IsDecimal, Pattern.Repetition.counts]
  exact ⟨_, .group (.component hbalanced honce .nil) hoptional (.component hbalanced honce .nil),
    rfl⟩

/-- The group takes part in a match of `/a/a`, also after a match of `/a`. -/
theorem expand_eq_expansion_optional :
    ∃ top state after, compile .literal optionalFirst = .ok top ∧
      Run.run (top.matchStep .literal 20) State.initial [[.generic [97]]] = some state ∧
        top.matchName .literal 20 [.generic [97], .generic [97]] state = some (true, after) ∧
          some (top.expand after ['\\', '1']) =
            optionalFirstPattern.expansion .literal [.generic [97], .generic [97]] ['\\', '1'] := by
  have hok : compile .literal optionalFirst = .ok _ := rfl
  have htakesPart : optionalFirstPattern.TakesPart .literal [.generic [97], .generic [97]]
      ['\\', '1'] := by
    intro found hfound number hnumber _ _
    obtain rfl : _ = found := Option.some.inj hfound
    obtain rfl : number = 1 := List.mem_singleton.mp hnumber
    rfl
  exact ⟨_, _, _, hok, rfl, rfl, expand_eq_expansion (by decide) hok spells_optionalFirst 20
    [[.generic [97]]] _ rfl _ _ rfl _ htakesPart⟩

def optionalOnly : List Char := ['^', '(', '<', 'a', '>', ')', '?', '$']

/-- With `^(<a>)?<a>$`, the group keeps the component of the attempt that failed, although it takes
no part in the match of `/a`. With `^(<a>)?$`, a match of the empty name is expanded to what was
matched before. -/
theorem expand_stale :
    optionalFirstPattern.Spells optionalFirst ∧
    (∃ top after, compile .literal optionalFirst = .ok top ∧
      top.matchName .literal 20 [.generic [97]] State.initial = some (true, after) ∧
        top.expand after ['\\', '1'] = .ok [.generic [97]] ∧
          optionalFirstPattern.expansion .literal [.generic [97]] ['\\', '1'] = some (.ok [])) ∧
      ∃ top earlier after fresh, compile .literal optionalOnly = .ok top ∧
        top.matchName .literal 20 [.generic [97]] State.initial = some (true, earlier) ∧
          top.matchName .literal 20 [] earlier = some (true, after) ∧
            top.expand after ['\\', '1'] = .ok [.generic [97]] ∧
          top.matchName .literal 20 [] State.initial = some (true, fresh) ∧
            top.expand fresh ['\\', '1'] = .ok [] :=
  ⟨spells_optionalFirst, ⟨_, _, rfl, rfl, rfl, rfl⟩, ⟨_, _, _, _, rfl, rfl, rfl, rfl, rfl, rfl⟩⟩

end RegexTopMatcher

end NdnCxx
