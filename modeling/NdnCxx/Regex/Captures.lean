import NdnCxx.Regex.TopMatcher

/-!
# What unrepeated groups capture

In a flat pattern the groups are not repeated and hold only items without marks. A match of such a
pattern splits the name into one word for each item, and every group captures its own word. Which split
is found is the business of the search; where the pattern leaves only one, nothing else can be found.
-/

namespace NdnCxx.Pattern

open RegexMatcher hiding repetition

section Flat

variable (library : RegexLibrary)

def IsPlain : Pattern → Prop
  | .group _ _ => False
  | .component expr _ => markCount library expr = 0
  | .set _ exprs _ => ∀ expr ∈ exprs, markCount library expr = 0

/-- The groups are not repeated and hold plain items only. -/
inductive IsFlat : List Pattern → Prop
  | nil : IsFlat []
  | plain {pattern : Pattern} {later : List Pattern} :
      IsPlain library pattern → IsFlat later → IsFlat (pattern :: later)
  | group {patterns later : List Pattern} :
      (∀ pattern ∈ patterns, IsPlain library pattern) → IsFlat later →
        IsFlat (.group patterns .once :: later)

end Flat

variable {library : RegexLibrary} {exprs : List (List Char)}
    {operand : ℕ → ℕ → Captures → Option Captures} {later : List Pattern}

theorem sum_markCount_eq_zero (hmarks : ∀ expr ∈ exprs, markCount library expr = 0) :
    (exprs.map (markCount library)).sum = 0 := by
  apply List.sum_eq_zero
  intro count hcount
  obtain ⟨expr, hexpr, rfl⟩ := List.mem_map.mp hcount
  exact hmarks expr hexpr

variable {pattern : Pattern} {patterns : List Pattern}

theorem backrefCount_of_isPlain (hplain : IsPlain library pattern) :
    backrefCount library pattern = 0 := by
  cases pattern with
  | group patterns repetition => exact hplain.elim
  | component expr repetition =>
    rw [backrefCount]
    exact hplain
  | set isInclusion exprs repetition =>
    rw [backrefCount]
    exact sum_markCount_eq_zero hplain

theorem listBackrefCount_of_isPlain (hplain : ∀ pattern ∈ patterns, IsPlain library pattern) :
    listBackrefCount library patterns = 0 := by
  induction patterns with
  | nil => rfl
  | cons pattern later ih =>
    rw [listBackrefCount, backrefCount_of_isPlain (hplain pattern List.mem_cons_self),
      ih fun other hother ↦ hplain other (List.mem_cons_of_mem pattern hother)]

def groupWords : List Pattern → List Name → List Name
  | .group _ _ :: later, word :: words => word :: groupWords later words
  | _ :: later, _ :: words => groupWords later words
  | _, _ => []

variable {name : Name}

/-! ## Items that capture nothing -/

variable {len : ℕ}

theorem exists_of_longest {Value : Type} {attempt : ℕ → Option Value} {found : Value}
    (hfound : longest attempt len = some found) : ∃ tried ≤ len, attempt tried = some found := by
  induction len with
  | zero => exact ⟨0, le_rfl, hfound⟩
  | succ len ih =>
    rw [longest, Option.or_eq_some_iff] at hfound
    rcases hfound with hfirst | ⟨-, hlater⟩
    · exact ⟨len + 1, le_rfl, hfirst⟩
    · obtain ⟨tried, htried, hattempt⟩ := ih hlater
      exact ⟨tried, Nat.le_succ_of_le htried, hattempt⟩

theorem forget_zero (first : ℕ) (captures : Captures) : captures.forget first 0 = captures := by
  funext backrefNo
  exact if_neg (by omega)

/-- A search that leaves the captures as they were. -/
def CapturesNothing (find : ℕ → ℕ → Captures → Option Captures) : Prop :=
  ∀ {offset len captures found}, find offset len captures = some found → found = captures

theorem capturesNothing_iterate (hoperand : CapturesNothing operand) (least remaining count : ℕ) :
    CapturesNothing (iterate operand least remaining count) := by
  intro offset len captures found hfound
  induction remaining generalizing count offset len captures with
  | zero =>
    cases len with
    | zero =>
      simp only [iterate] at hfound
      split_ifs at hfound
      exact (Option.some.inj hfound).symm
    | succ len => cases hfound
  | succ remaining ih =>
    cases len with
    | zero =>
      simp only [iterate] at hfound
      split_ifs at hfound
      exact (Option.some.inj hfound).symm
    | succ len =>
      rw [iterate] at hfound
      obtain ⟨tried, -, hattempt⟩ := exists_of_longest hfound
      obtain ⟨middle, hmiddle, hrest⟩ := Option.bind_eq_some_iff.mp hattempt
      rw [ih (count + 1) hrest, hoperand hmiddle]

theorem capturesNothing_searchRepeated (hoperand : CapturesNothing operand) (first : ℕ)
    (bounds : ℕ × ℕ) : CapturesNothing (searchRepeated operand first 0 bounds) := by
  intro offset len captures found hfound
  rw [searchRepeated] at hfound
  split_ifs at hfound with hpassed
  · rw [← Option.some.inj hfound, forget_zero]
  · exact capturesNothing_iterate hoperand _ _ _ hfound

variable {first : ℕ} {member : RegexComponentMatcher} {accepted : Component → Prop} {word : Name}

theorem markCount_of_mem_members (hmarks : ∀ expr ∈ exprs, markCount library expr = 0)
    (hmem : member ∈ members library first exprs) : member.markCount = 0 := by
  induction exprs generalizing first with
  | nil => cases hmem
  | cons expr exprs ih =>
    rcases List.mem_cons.mp hmem with rfl | hlater
    · exact hmarks expr List.mem_cons_self
    · exact ih (fun other hother ↦ hmarks other (List.mem_cons_of_mem expr hother)) hlater

theorem captureMarks_of_markCount_eq_zero {target : Component} (hmarks : member.markCount = 0)
    (captures : Captures) : captureMarks library target member captures = captures := by
  rw [captureMarks]
  split_ifs with hempty
  · rfl
  · cases library.regexMatch member.expr target.toUri with
    | none => rfl
    | some marks =>
      funext backrefNo
      exact if_neg (by omega)

theorem capturesNothing_searchSet {isInclusion : Bool}
    (hmarks : ∀ expr ∈ exprs, markCount library expr = 0) :
    CapturesNothing (searchSet library name isInclusion exprs first) := by
  intro offset len captures found hfound
  simp only [searchSet, sum_markCount_eq_zero hmarks, forget_zero] at hfound
  split_ifs at hfound with htaken
  rw [← Option.some.inj hfound, captureMember]
  split
  · rename_i member hfilter
    have hmem : member ∈ members library first exprs :=
      List.mem_of_mem_filter (hfilter ▸ List.mem_singleton_self member)
    exact captureMarks_of_markCount_eq_zero (markCount_of_mem_members hmarks hmem) captures
  · rfl

theorem capturesNothing_search (hplain : IsPlain library pattern) (first : ℕ) :
    CapturesNothing (search library name pattern first) := by
  intro offset len captures found hfound
  cases pattern with
  | group patterns repetition => exact hplain.elim
  | component expr repetition =>
    have hmarks : markCount library expr = 0 := hplain
    rw [search, hmarks] at hfound
    exact capturesNothing_searchRepeated (capturesNothing_searchSet (by simpa using hmarks)) first _
      hfound
  | set isInclusion exprs repetition =>
    have hmarks : ∀ expr ∈ exprs, markCount library expr = 0 := hplain
    rw [search, sum_markCount_eq_zero hmarks] at hfound
    exact capturesNothing_searchRepeated (capturesNothing_searchSet hmarks) first _ hfound

theorem exists_of_searchList_cons {offset : ℕ} {captures found : Captures}
    (hfound : searchList library name (pattern :: later) first offset len captures = some found) :
    ∃ tried ≤ len, ∃ middle, search library name pattern first offset tried captures = some middle ∧
      searchList library name later (first + backrefCount library pattern) (offset + tried)
        (len - tried) middle = some found := by
  rw [searchList] at hfound
  obtain ⟨tried, htried, hattempt⟩ := exists_of_longest hfound
  obtain ⟨middle, hmiddle, hrest⟩ := Option.bind_eq_some_iff.mp hattempt
  exact ⟨tried, htried, middle, hmiddle, hrest⟩

theorem capturesNothing_searchList (hplain : ∀ pattern ∈ patterns, IsPlain library pattern)
    (first : ℕ) : CapturesNothing (searchList library name patterns first) := by
  induction patterns generalizing first with
  | nil =>
    intro offset len captures found hfound
    rw [searchList] at hfound
    split_ifs at hfound
    exact (Option.some.inj hfound).symm
  | cons pattern later ih =>
    intro offset len captures found hfound
    obtain ⟨tried, -, middle, hmiddle, hrest⟩ := exists_of_searchList_cons hfound
    rw [ih (fun other hother ↦ hplain other (List.mem_cons_of_mem pattern hother)) _ hrest]
    exact capturesNothing_search (hplain pattern List.mem_cons_self) first hmiddle

/-! ## The words of a match -/

theorem RepeatsNonempty.split (hrepeats : RepeatsNonempty library (pattern :: later)) :
    RepeatsNonempty library [pattern] ∧ RepeatsNonempty library later := by
  cases hrepeats with
  | group hinner hoperand hlater => exact ⟨.group hinner hoperand .nil, hlater⟩
  | component hlater => exact ⟨.component .nil, hlater⟩
  | set hlater => exact ⟨.set .nil, hlater⟩

theorem CountsBelow.split {bound : ℕ} (hcounts : CountsBelow bound (pattern :: later)) :
    CountsBelow bound [pattern] ∧ CountsBelow bound later := by
  cases hcounts with
  | group hinner hcount hlater => exact ⟨.group hinner hcount .nil, hlater⟩
  | component hcount hlater => exact ⟨.component hcount .nil, hlater⟩
  | set hcount hlater => exact ⟨.set hcount .nil, hlater⟩

/-- What an item is matched with is a word of its language. -/
theorem slice_mem_of_search {offset : ℕ} {captures found : Captures}
    (hlength : name.length ≤ maxRepetitions) (hrepeats : RepeatsNonempty library [pattern])
    (hcounts : CountsBelow (2 ^ 31) [pattern]) (hbound : offset + len ≤ name.length)
    (hfound : search library name pattern first offset len captures = some found) :
    slice name offset len ∈ language library pattern := by
  have hlist : (searchList library name [pattern] first offset len captures).isSome = true := by
    rw [searchList, isSome_longest]
    exact ⟨len, le_rfl, by simp [hfound, searchList]⟩
  have hmem := (decides_searchList hlength hrepeats hcounts offset len hbound captures).mp hlist
  simpa [listLanguage] using hmem

theorem search_group_once {offset : ℕ} {captures found : Captures}
    (hplain : ∀ pattern ∈ patterns, IsPlain library pattern)
    (hfound : search library name (.group patterns .once) first offset len captures = some found) :
    found = Function.update captures first (some (slice name offset len)) := by
  rw [search, if_pos rfl, searchGroup] at hfound
  obtain ⟨inner, hinner, rfl⟩ := Option.map_eq_some_iff.mp hfound
  rw [capturesNothing_searchList hplain _ hinner, Function.update_idem]

/-- A match of a flat pattern splits what it consumes into words of its items, and each group captures
its word. -/
theorem exists_words_of_searchList (hflat : IsFlat library patterns)
    (hlength : name.length ≤ maxRepetitions) (hrepeats : RepeatsNonempty library patterns)
    (hcounts : CountsBelow (2 ^ 31) patterns) {offset : ℕ} {captures found : Captures}
    (hbound : offset + len ≤ name.length)
    (hfound : searchList library name patterns first offset len captures = some found) :
    ∃ words : List Name, words.flatten = slice name offset len ∧
      List.Forall₂ (fun pattern word ↦ word ∈ language library pattern) patterns words ∧
      (∀ number word, (groupWords patterns words)[number]? = some word →
        found (first + number) = some word) ∧
      ∀ backrefNo < first, found backrefNo = captures backrefNo := by
  induction hflat generalizing first offset len captures with
  | nil =>
    rw [searchList] at hfound
    split_ifs at hfound with hempty
    obtain rfl := Option.some.inj hfound
    exact ⟨[], by rw [hempty, slice_zero, List.flatten_nil], .nil, by simp [groupWords],
      fun _ _ ↦ rfl⟩
  | @plain pattern later hplain hlater ih =>
    obtain ⟨hrepeatsItem, hrepeatsLater⟩ := hrepeats.split
    obtain ⟨hcountsItem, hcountsLater⟩ := hcounts.split
    obtain ⟨tried, htried, middle, hmiddle, hrest⟩ := exists_of_searchList_cons hfound
    obtain rfl := capturesNothing_search hplain first hmiddle
    rw [backrefCount_of_isPlain hplain, Nat.add_zero] at hrest
    obtain ⟨words, hflatten, hwords, hgroups, hbefore⟩ :=
      ih hrepeatsLater hcountsLater (by omega) hrest
    have hword := slice_mem_of_search hlength hrepeatsItem hcountsItem (by omega) hmiddle
    refine ⟨slice name offset tried :: words, ?_, .cons hword hwords, ?_, hbefore⟩
    · rw [List.flatten_cons, hflatten, slice_append htried]
    · have hsame : groupWords (pattern :: later) (slice name offset tried :: words) =
          groupWords later words := by
        cases pattern with
        | group patterns repetition => exact hplain.elim
        | component expr repetition => rfl
        | set isInclusion exprs repetition => rfl
      rwa [hsame]
  | @group patterns later hplain hlater ih =>
    obtain ⟨hrepeatsItem, hrepeatsLater⟩ := hrepeats.split
    obtain ⟨hcountsItem, hcountsLater⟩ := hcounts.split
    obtain ⟨tried, htried, middle, hmiddle, hrest⟩ := exists_of_searchList_cons hfound
    obtain rfl := search_group_once hplain hmiddle
    rw [backrefCount, listBackrefCount_of_isPlain hplain, Nat.zero_add] at hrest
    obtain ⟨words, hflatten, hwords, hgroups, hbefore⟩ :=
      ih hrepeatsLater hcountsLater (by omega) hrest
    have hword := slice_mem_of_search hlength hrepeatsItem hcountsItem (by omega) hmiddle
    refine ⟨slice name offset tried :: words, ?_, .cons hword hwords, ?_, ?_⟩
    · rw [List.flatten_cons, hflatten, slice_append htried]
    · intro number word hnumber
      rw [groupWords] at hnumber
      cases number with
      | zero =>
        obtain rfl : slice name offset tried = word := Option.some.inj hnumber
        rw [Nat.add_zero, hbefore first (Nat.lt_succ_self first), Function.update_self]
      | succ number =>
        rw [List.getElem?_cons_succ] at hnumber
        rw [← hgroups number word hnumber, Nat.add_assoc, Nat.add_comm number 1]
    · intro backrefNo hless
      rw [hbefore backrefNo (Nat.lt_succ_of_lt hless), Function.update_of_ne hless.ne]

/-! ## Repeated components -/

theorem mem_single_pow_iff {count : ℕ} :
    word ∈ single accepted ^ count ↔
      word.length = count ∧ ∀ component ∈ word, accepted component := by
  induction count generalizing word with
  | zero =>
    rw [pow_zero, Language.mem_one]
    constructor
    · rintro rfl
      simp
    · rintro ⟨hlength, -⟩
      exact List.length_eq_zero_iff.mp hlength
  | succ count ih =>
    rw [pow_succ', Language.mem_mul]
    constructor
    · rintro ⟨_, ⟨component, rfl, hcomponent⟩, later, hlater, rfl⟩
      obtain ⟨hlength, haccepted⟩ := ih.mp hlater
      exact ⟨by simp [hlength], List.forall_mem_cons.mpr ⟨hcomponent, haccepted⟩⟩
    · rintro ⟨hlength, haccepted⟩
      cases word with
      | nil => cases hlength
      | cons component later =>
        obtain ⟨hcomponent, hlater⟩ := List.forall_mem_cons.mp haccepted
        exact ⟨[component], mem_single_iff.mpr hcomponent, later,
          ih.mpr ⟨Nat.succ.inj hlength, hlater⟩, rfl⟩

/-- Any number of accepted components. -/
theorem mem_zeroOrMore_single_iff :
    word ∈ Repetition.zeroOrMore.language (single accepted) ↔
      ∀ component ∈ word, accepted component := by
  constructor
  · rintro ⟨count, -, -, hmem⟩
    exact (mem_single_pow_iff.mp hmem).2
  · intro haccepted
    exact ⟨word.length, Nat.zero_le _, by simp [Repetition.greatest],
      mem_single_pow_iff.mpr ⟨rfl, haccepted⟩⟩

/-- A list of items denotes the names that split into words of the items. -/
theorem mem_listLanguage_iff :
    word ∈ listLanguage library patterns ↔
      ∃ words : List Name, words.flatten = word ∧
        List.Forall₂ (fun pattern word ↦ word ∈ language library pattern) patterns words := by
  induction patterns generalizing word with
  | nil =>
    rw [listLanguage, Language.mem_one]
    constructor
    · rintro rfl
      exact ⟨[], rfl, .nil⟩
    · rintro ⟨words, rfl, hwords⟩
      cases hwords
      rfl
  | cons pattern later ih =>
    rw [listLanguage, Language.mem_mul]
    constructor
    · rintro ⟨first, hfirst, rest, hrest, rfl⟩
      obtain ⟨words, rfl, hwords⟩ := ih.mp hrest
      exact ⟨first :: words, rfl, .cons hfirst hwords⟩
    · rintro ⟨words, rfl, hwords⟩
      cases hwords with
      | cons hfirst hlater => exact ⟨_, hfirst, _, ih.mpr ⟨_, rfl, hlater⟩, rfl⟩

end NdnCxx.Pattern

namespace NdnCxx.RegexTopMatcher

open Pattern

variable {library : RegexLibrary} {patterns : List Pattern} {top : RegexTopMatcher}

/-- With enough depth for its calls, a match of a flat pattern with both anchors returns whether the
name splits into words of the items. If it does, the back references hold the words of the groups in
such a split, whatever was matched before. -/
theorem CompiledFrom.exists_matchName_words
    (hcompiled : CompiledFrom library ⟨true, patterns, true⟩ top)
    (hflat : IsFlat library patterns) (hrepeats : RepeatsNonempty library patterns)
    (hcounts : CountsBelow (2 ^ 31) patterns) {name : Name} (hlength : name.length < 2 ^ 64) :
    ∃ depth, ∀ calls ≥ depth, ∀ state, ∃ isMatched after,
      top.matchName library calls name state = some (isMatched, after) ∧
      (isMatched = true ↔ name ∈ listLanguage library patterns) ∧
      (isMatched = true → top.usedSize after = listBackrefCount library patterns ∧
        ∃ words : List Name, words.flatten = name ∧
          List.Forall₂ (fun pattern word ↦ word ∈ language library pattern) patterns words ∧
          ∀ number word, (groupWords patterns words)[number]? = some word →
            usedRefs after number = word) := by
  have hprimary : TopPattern.primaryPatterns ⟨true, patterns, true⟩ = patterns := List.append_nil _
  have hmax : name.length ≤ RegexMatcher.maxRepetitions := by
    rw [RegexMatcher.maxRepetitions]
    omega
  obtain ⟨depth, hdepth⟩ := exists_depth_matchName library top name
  refine ⟨depth, fun calls hcalls state ↦ ?_⟩
  obtain ⟨⟨isMatched, after⟩, hrun⟩ := Option.isSome_iff_exists.mp (hdepth calls hcalls state)
  obtain ⟨hsome, hkeeps⟩ := hcompiled.matchName_eq hrun
  have hfind : TopPattern.find library ⟨true, patterns, true⟩ name =
      findList library name patterns := by
    simp [TopPattern.find, hprimary]
  rw [hfind] at hsome hkeeps
  refine ⟨isMatched, after, hrun, ?_, ?_⟩
  · rw [hsome]
    exact isSome_findList_iff hlength hrepeats hcounts
  · rintro rfl
    obtain ⟨found, hfound⟩ := Option.isSome_iff_exists.mp hsome.symm
    obtain ⟨-, hsize, hrefs⟩ := hkeeps found hfound
    obtain ⟨captures, hcaptures, rfl⟩ := Option.map_eq_some_iff.mp hfound
    obtain ⟨words, hflatten, hwords, hgroups, -⟩ :=
      exists_words_of_searchList hflat hmax hrepeats hcounts (Nat.zero_add _).le hcaptures
    refine ⟨hsize, words, ?_, hwords, ?_⟩
    · rw [hflatten]
      simp [RegexMatcher.slice]
    · intro number word hnumber
      have hcaptured := hgroups number word hnumber
      rw [Nat.zero_add] at hcaptured
      exact hrefs number word hcaptured

end NdnCxx.RegexTopMatcher
