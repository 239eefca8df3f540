import NdnCxx.Name.UriRoundTrip
import NdnCxx.Regex.TopMatcher

/-!
# Patterns made from names

`RegexTopMatcher::fromName` writes the components of a name as URI text, puts a backslash in front of
the characters that `boost::regex` would interpret, and compiles the result. Escaped text matches
itself only, and URI text has no angle brackets, so the pattern is read back as one literal for each
component.
-/

namespace NdnCxx

/-! ## Literal expressions -/

namespace RegexLibrary

/-- The characters that do not stand for themselves in an expression of `boost::regex`. -/
def specialChars : List Char :=
  ['.', '[', '{', '}', '(', ')', '\\', '*', '+', '?', '|', '^', '$']

/-- An expression is a text with a backslash in front of every special character. -/
inductive Escapes : List Char → List Char → Prop
  | nil : Escapes [] []
  | plain {char : Char} {expr text : List Char} :
      char ∉ specialChars → Escapes expr text → Escapes (char :: expr) (char :: text)
  | special {char : Char} {expr text : List Char} :
      char ∈ specialChars → Escapes expr text → Escapes ('\\' :: char :: expr) (char :: text)

/-- What `boost::regex` does with an escaped text and with `.*`: neither has marks, the one matches
the text and nothing else, and the other matches everything. -/
structure MatchesLiterally (library : RegexLibrary) : Prop where
  markCount_escaped : ∀ {expr text}, Escapes expr text → text ≠ [] → library.markCount expr = .ok 0
  regexMatch_escaped : ∀ {expr text target}, Escapes expr text → text ≠ [] →
    ((library.regexMatch expr target).isSome = true ↔ target = text)
  markCount_any : library.markCount ['.', '*'] = .ok 0
  regexMatch_any : ∀ text, (library.regexMatch ['.', '*'] text).isSome = true

end RegexLibrary

namespace RegexTopMatcher

open RegexLibrary (Escapes)

def convertSpecialChar (str : List Char) : List Char :=
  str.flatMap fun c ↦
    if c = '.' ∨ c = '[' ∨ c = '{' ∨ c = '}' ∨ c = '(' ∨ c = ')' ∨ c = '\\' ∨ c = '*' ∨ c = '+' ∨
        c = '?' ∨ c = '|' ∨ c = '^' ∨ c = '$' then ['\\', c]
    else [c]

/-- The text that `RegexTopMatcher::fromName` compiles -/
def nameText (name : Name) (hasAnchor : Bool) : List Char :=
  ['^'] ++ (name.flatMap fun component ↦
    ['<'] ++ convertSpecialChar component.toUri ++ ['>']) ++ if hasAnchor then ['$'] else []

def fromName (library : RegexLibrary) (name : Name) (hasAnchor : Bool) :
    Except Error RegexTopMatcher := compile library (nameText name hasAnchor)

theorem escapes_convertSpecialChar (str : List Char) : Escapes (convertSpecialChar str) str := by
  induction str with
  | nil => exact .nil
  | cons char str ih =>
    rw [convertSpecialChar, List.flatMap_cons]
    split_ifs with hspecial
    · exact .special (by simpa [RegexLibrary.specialChars] using hspecial) ih
    · exact .plain (by simpa [RegexLibrary.specialChars] using hspecial) ih

/-- Escaping adds backslashes only. -/
theorem mem_of_mem_convertSpecialChar {char : Char} {str : List Char} (hslash : char ≠ '\\')
    (hmem : char ∈ convertSpecialChar str) : char ∈ str := by
  obtain ⟨c, hc, hchar⟩ := List.mem_flatMap.mp hmem
  split_ifs at hchar
  · simp only [List.mem_cons, hslash, List.not_mem_nil, or_false, false_or] at hchar
    exact hchar ▸ hc
  · exact List.mem_singleton.mp hchar ▸ hc

/-- URI text has neither angle brackets nor null characters. -/
theorem toUri_plain (component : Component) :
    ∀ char ∈ component.toUri, char ≠ '<' ∧ char ≠ '>' ∧ char ≠ Char.ofNat 0 := by
  apply Component.forall_mem_toUri
  · exact List.forall_iff_forall_mem.mp (by decide)
  · decide
  · intro byte hunescaped
    have hbyte : ∀ char : Char, Char.ofNat byte.toNat = char → byte = UInt8.ofNat char.toNat := by
      rintro char rfl
      rw [Component.toNat_charOfByte, UInt8.ofNat_toNat]
    refine ⟨?_, ?_, (Component.isUnescaped_spec hunescaped).1.2.2.2⟩
    · intro hleft
      rw [hbyte '<' hleft] at hunescaped
      exact absurd hunescaped (by decide)
    · intro hright
      rw [hbyte '>' hright] at hunescaped
      exact absurd hunescaped (by decide)

/-! ## The pattern of a name -/

/-- The expression that stands for a component. -/
def literal (component : Component) : List Char := convertSpecialChar component.toUri

/-- The items that a name is written as. -/
def literals (name : Name) : List Pattern :=
  name.map fun component ↦ .component (literal component) .once

theorem literal_plain (component : Component) :
    '<' ∉ literal component ∧ '>' ∉ literal component ∧ Char.ofNat 0 ∉ literal component := by
  refine ⟨?_, ?_, ?_⟩ <;> intro hmem <;>
    have hchar := toUri_plain component _ (mem_of_mem_convertSpecialChar (by decide) hmem)
  · exact hchar.1 rfl
  · exact hchar.2.1 rfl
  · exact hchar.2.2 rfl

theorem balanced_literal (component : Component) : Pattern.Balanced (literal component) :=
  Pattern.balanced_of_notMem (literal_plain component).1 (literal_plain component).2.1

def namePattern (name : Name) (hasAnchor : Bool) : TopPattern := ⟨true, literals name, hasAnchor⟩

theorem spells_literals (name : Name) :
    Pattern.Spells (literals name) (name.flatMap fun component ↦
      ['<'] ++ convertSpecialChar component.toUri ++ ['>']) := by
  induction name with
  | nil => exact .nil
  | cons component name ih =>
    have honce : Pattern.Repetition.once.IsDecimal := by
      simp [Pattern.Repetition.IsDecimal, Pattern.Repetition.counts]
    have hitem := Pattern.Spells.component (balanced_literal component) honce ih
    simpa [literals, literal, Pattern.Repetition.text] using hitem

theorem spells_namePattern (name : Name) (hasAnchor : Bool) :
    (namePattern name hasAnchor).Spells (nameText name hasAnchor) :=
  ⟨_, spells_literals name, by cases hasAnchor <;> simp [nameText, namePattern]⟩

/-! ## Compiling it -/

variable {name : Name} {expr : List Char}

section Compiling

open RegexMatcher Pattern

variable {library : RegexLibrary} {depth : ℕ} {rest : List Char}

/-- Without null characters, components are cut off as items are. -/
theorem extractComponent_of_extractSubPattern {chars sub : List Char} (hnull : Char.ofNat 0 ∉ chars)
    (hok : extractSubPattern '<' '>' depth chars = .ok (sub, rest)) :
    extractComponent depth chars = .ok (sub, rest) := by
  induction chars generalizing depth sub rest with
  | nil => simp [extractSubPattern] at hok
  | cons char chars ih =>
    obtain ⟨hchar, hlater⟩ := not_or.mp (mt List.mem_cons.mpr hnull)
    rw [extractSubPattern_cons] at hok
    rw [extractComponent_cons (Ne.symm hchar)]
    split_ifs at hok ⊢
    · exact hok
    · cases hextract : extractSubPattern '<' '>' (depthAfter '<' '>' char depth) chars with
      | error error => simp [hextract, Except.map] at hok
      | ok result =>
        rw [ih hlater hextract]
        rwa [hextract] at hok

/-- A component expression that compiles: it is balanced, has no null character, and is an
expression of `boost::regex`. -/
structure Compilable (library : RegexLibrary) (expr : List Char) : Prop where
  balanced : Balanced expr
  noNull : Char.ofNat 0 ∉ expr
  markCount : ∃ markCount, library.markCount expr = .ok markCount

theorem Compilable.exists_compileComponentSet (hexpr : Compilable library expr) (backrefNo : ℕ) :
    ∃ result, compileComponentSet library ('<' :: (expr ++ ['>'])) backrefNo = .ok result := by
  obtain ⟨markCount, hcount⟩ := hexpr.markCount
  have hnull : Char.ofNat 0 ∉ expr ++ ['>'] := by
    intro hmem
    rcases List.mem_append.mp hmem with hmem | hmem
    · exact hexpr.noNull hmem
    · simp at hmem
  have hextract : extractComponent 1 (expr ++ ['>']) = .ok (expr ++ ['>'], []) :=
    extractComponent_of_extractSubPattern hnull (extractSubPattern_of_balanced [] hexpr.balanced)
  have hlong : ¬ ('<' :: (expr ++ ['>'])).length < 2 := by simp
  rw [compileComponentSet, if_neg hlong]
  simp [compileSingleComponent, hextract, compileComponent, hcount, bind, Except.bind, pure,
    Except.pure]

/-- One more item in front of a text that compiles. -/
theorem exists_compilePatternList_cons (backrefNo : ℕ) {repetition : Repetition}
    (hexpr : Compilable library expr) (hrepetition : repetition = .once ∨ repetition = .zeroOrMore)
    (hrest : ¬ Repetition.Continues rest)
    (hlater : ∀ next, ∃ result, compilePatternList library depth rest next = .ok result) :
    ∃ result, compilePatternList library (depth + 1)
      (componentText expr ++ (repetition.text ++ rest)) backrefNo = .ok result := by
  obtain ⟨⟨set, next⟩, hset⟩ := hexpr.exists_compileComponentSet backrefNo
  obtain ⟨⟨matchers, last⟩, hmatchers⟩ := hlater next
  have hdecimal : repetition.IsDecimal := by
    rcases hrepetition with rfl | rfl <;> simp [Repetition.IsDecimal, Repetition.counts]
  have hparse : ∀ text, parseRepetition text repetition.text = .ok repetition.bounds := by
    intro text
    rcases hrepetition with rfl | rfl <;> rfl
  have hextract : extractPattern '<' (expr ++ '>' :: (repetition.text ++ rest)) =
      .ok ('<' :: (expr ++ ['>']), repetition.text, rest) := by
    simp [extractPattern, extractOperand, extractSubPattern_of_balanced _ hexpr.balanced,
      Repetition.extractRepetition_text_append hdecimal hrest, bind, Except.bind, pure, Except.pure]
  have htext : componentText expr ++ (repetition.text ++ rest) =
      '<' :: (expr ++ '>' :: (repetition.text ++ rest)) := by simp [componentText]
  rw [htext, compilePatternList, hextract]
  simp [bind, Except.bind, pure, Except.pure, hset, hparse, hmatchers]

/-- Literals in front of a text that compiles. -/
theorem exists_compilePatternList_literals
    (hname : ∀ component ∈ name, Compilable library (literal component))
    (hrest : ¬ Repetition.Continues rest)
    (hlater : ∀ next, ∃ result, compilePatternList library depth rest next = .ok result) :
    ∀ backrefNo, ∃ result, compilePatternList library (name.length + depth)
      ((name.flatMap fun component ↦ componentText (literal component)) ++ rest) backrefNo =
        .ok result := by
  induction name with
  | nil => simpa using hlater
  | cons component name ih =>
    intro backrefNo
    have hnext : ¬ Repetition.Continues
        ((name.flatMap fun component ↦ componentText (literal component)) ++ rest) := by
      cases name with
      | nil => exact hrest
      | cons second name => simp [Repetition.Continues, componentText]
    have hitem := exists_compilePatternList_cons backrefNo
      (hname component List.mem_cons_self) (.inl rfl) hnext
      (ih fun other hmem ↦ hname other (List.mem_cons_of_mem component hmem))
    rw [List.length_cons, List.flatMap_cons, List.append_assoc, Nat.succ_add]
    exact hitem

/-- The text in front of which `compile` reads the literals: nothing at an anchor, else `<.*>*`. -/
theorem exists_compileText (hname : ∀ component ∈ name, Compilable library (literal component))
    (hany : Compilable library ['.', '*']) (hrest : rest = [] ∨ rest = anyComponents) :
    ∃ result, compileText library
      ((name.flatMap fun component ↦ componentText (literal component)) ++ rest) = .ok result := by
  have hlength : name.length ≤
      (name.flatMap fun component ↦ componentText (literal component)).length := by
    clear hname
    induction name with
    | nil => exact le_rfl
    | cons component name ih =>
      rw [List.length_cons, List.flatMap_cons, List.length_append, componentText, List.length_cons]
      omega
  have hlater : ∀ depth, rest.length ≤ depth → ∀ next, ∃ result,
      compilePatternList library depth rest next = .ok result := by
    intro depth hdepth next
    rcases hrest with rfl | rfl
    · exact ⟨([], next), by cases depth <;> rfl⟩
    · obtain ⟨depth, rfl⟩ : ∃ smaller, depth = smaller + 1 :=
        ⟨depth - 1, (Nat.sub_add_cancel (le_trans (by decide) hdepth)).symm⟩
      exact exists_compilePatternList_cons _ hany (.inr rfl) (by simp [Repetition.Continues])
        fun next ↦ ⟨([], next), by cases depth <;> rfl⟩
  have hrest : ¬ Repetition.Continues rest := by
    rcases hrest with rfl | rfl <;> simp [Repetition.Continues, anyComponents]
  rw [compileText, List.length_append]
  obtain ⟨extra, hextra⟩ := Nat.exists_eq_add_of_le hlength
  rw [hextra, Nat.add_assoc]
  exact exists_compilePatternList_literals hname hrest (hlater _ (Nat.le_add_left _ _)) 0

end Compiling

section Names

variable {library : RegexLibrary} (hlibrary : library.MatchesLiterally)
include hlibrary

theorem compilable_literal (component : Component) : Compilable library (literal component) where
  balanced := balanced_literal component
  noNull := (literal_plain component).2.2
  markCount := ⟨0, hlibrary.markCount_escaped (escapes_convertSpecialChar component.toUri)
    (Component.toUri_spec component).1⟩

/-- What `fromName` writes is always a pattern. -/
theorem exists_fromName (name : Name) (hasAnchor : Bool) :
    ∃ top, fromName library name hasAnchor = .ok top := by
  have hany : Compilable library ['.', '*'] :=
    ⟨Pattern.balanced_of_notMem (by decide) (by decide), by decide, 0, hlibrary.markCount_any⟩
  have hcompile : ∀ rest, rest = [] ∨ rest = anyComponents → ∃ result, compileText library
      ((name.flatMap fun component ↦ Pattern.componentText (literal component)) ++ rest) =
        .ok result := fun rest hrest ↦
    exists_compileText (fun component _ ↦ compilable_literal hlibrary component) hany hrest
  have hlast := (spells_namePattern name hasAnchor).isEndAnchored_iff
  have htext : nameText name hasAnchor = '^' ::
      ((name.flatMap fun component ↦ Pattern.componentText (literal component)) ++
        if hasAnchor then ['$'] else []) := by
    simp [nameText, Pattern.componentText, literal]
  -- behind the first anchor stand the literals, and then what `compile` has made of the end
  have hcore : ∃ rest, (rest = [] ∨ rest = anyComponents) ∧
      (if (nameText name hasAnchor).getLast? ≠ some '$' then nameText name hasAnchor ++ anyComponents
        else (nameText name hasAnchor).dropLast) = '^' ::
          ((name.flatMap fun component ↦ Pattern.componentText (literal component)) ++ rest) := by
    cases hasAnchor with
    | true =>
      have hclosed : (nameText name true).getLast? = some '$' := hlast.mp rfl
      refine ⟨[], .inl rfl, ?_⟩
      rw [if_neg (Classical.not_not.mpr hclosed), htext, if_pos rfl, ← List.cons_append,
        List.dropLast_concat, List.append_nil]
    | false =>
      have hopen : (nameText name false).getLast? ≠ some '$' := fun hclosed ↦
        Bool.false_ne_true (hlast.mpr hclosed)
      refine ⟨anyComponents, .inr rfl, ?_⟩
      rw [if_pos hopen, htext, if_neg Bool.false_ne_true, List.append_nil, List.cons_append]
  obtain ⟨rest, hrest, hexpr⟩ := hcore
  obtain ⟨⟨primary, primarySize⟩, hprimary⟩ := hcompile rest hrest
  refine ⟨⟨primary, primarySize, none⟩, ?_⟩
  simp [fromName, compile, hexpr, hprimary, bind, Except.bind, pure, Except.pure]

/-! ## The language of a name -/

open Pattern in
/-- A literal accepts the component it was made from. -/
theorem accepts_literal_iff {component target : Component} (hcomponent : component.IsValid)
    (htarget : target.IsValid) :
    Accepts library (literal component) target ↔ target = component := by
  have hnonempty : component.toUri ≠ [] := (Component.toUri_spec component).1
  have hescapes : Escapes (literal component) component.toUri := escapes_convertSpecialChar _
  have hliteral : literal component ≠ [] := by
    intro hnil
    rw [hnil] at hescapes
    cases htext : component.toUri with
    | nil => exact hnonempty htext
    | cons char text =>
      rw [htext] at hescapes
      cases hescapes
  rw [Accepts, or_iff_right hliteral, hlibrary.regexMatch_escaped hescapes hnonempty]
  constructor
  · intro htext
    have hread := Component.fromEscapedString_toUri htarget
    rw [htext, Component.fromEscapedString_toUri hcomponent] at hread
    exact (Except.ok.inj hread).symm
  · rintro rfl
    rfl

theorem mem_listLanguage_literals_iff {word : Name} (hname : ∀ component ∈ name, component.IsValid)
    (hword : ∀ component ∈ word, component.IsValid) :
    word ∈ Pattern.listLanguage library (literals name) ↔ word = name := by
  induction name generalizing word with
  | nil => exact Iff.rfl
  | cons component name ih =>
    obtain ⟨hcomponent, hlater⟩ := List.forall_mem_cons.mp hname
    rw [literals, List.map_cons, Pattern.listLanguage, Pattern.language,
      Pattern.language_once, Language.mem_mul]
    constructor
    · rintro ⟨front, ⟨target, rfl, haccepts⟩, back, hback, rfl⟩
      obtain ⟨htarget, hrest⟩ := List.forall_mem_cons.mp hword
      obtain rfl : target = component :=
        (accepts_literal_iff hlibrary hcomponent htarget).mp haccepts
      obtain rfl : back = name := (ih hlater hrest).mp hback
      rfl
    · rintro rfl
      exact ⟨[component], ⟨component, rfl,
        (accepts_literal_iff hlibrary hcomponent hcomponent).mpr rfl⟩, name,
        (ih hlater hlater).mpr rfl, rfl⟩

theorem mem_language_namePattern_iff {word : Name} {hasAnchor : Bool}
    (hname : ∀ component ∈ name, component.IsValid)
    (hword : ∀ component ∈ word, component.IsValid) :
    word ∈ (namePattern name hasAnchor).language library ↔
      if hasAnchor then word = name else name <+: word := by
  cases hasAnchor with
  | true =>
    simp only [namePattern, TopPattern.language, TopPattern.outside, if_true, one_mul, mul_one]
    exact mem_listLanguage_literals_iff hlibrary hname hword
  | false =>
    simp only [namePattern, TopPattern.language, TopPattern.outside, if_true, one_mul,
      Bool.false_eq_true, if_false, Language.mem_mul]
    constructor
    · rintro ⟨front, hfront, back, -, rfl⟩
      have hvalid : ∀ component ∈ front, component.IsValid := fun component hmem ↦
        hword component (List.mem_append_left back hmem)
      rw [(mem_listLanguage_literals_iff hlibrary hname hvalid).mp hfront]
      exact List.prefix_append name back
    · rintro ⟨back, rfl⟩
      exact ⟨name, (mem_listLanguage_literals_iff hlibrary hname hname).mpr rfl, back, trivial, rfl⟩

omit hlibrary in
theorem repeatsNonempty_literals (name : Name) : Pattern.RepeatsNonempty library (literals name) := by
  induction name with
  | nil => exact .nil
  | cons component name ih => exact .component ih

omit hlibrary in
theorem countsBelow_literals (name : Name) : Pattern.CountsBelow (2 ^ 31) (literals name) := by
  induction name with
  | nil => exact .nil
  | cons component name ih => exact .component (by simp [Pattern.Repetition.counts]) ih

/-- The matcher that is made from a name accepts this name, or the names that begin with it. -/
theorem match_fromName_iff (name : Name) (hname : ∀ component ∈ name, component.IsValid)
    (hasAnchor : Bool) : ∃ top, fromName library name hasAnchor = .ok top ∧
      ∀ other : Name, (∀ component ∈ other, component.IsValid) → other.length < 2 ^ 64 →
        ∃ depth, ∀ calls ≥ depth, ∀ state, ∃ isMatched after,
          top.matchName library calls other state = some (isMatched, after) ∧
            (isMatched = true ↔ if hasAnchor then other = name else name <+: other) := by
  obtain ⟨top, hmake⟩ := exists_fromName hlibrary name hasAnchor
  refine ⟨top, hmake, ?_⟩
  intro other hother hlength
  have hnonempty : nameText name hasAnchor ≠ [] := by simp [nameText]
  obtain ⟨pattern, hspells, hcompiled⟩ := exists_of_compile hnonempty hmake
  obtain rfl := hspells.unique (spells_namePattern name hasAnchor)
  have hmatch := hcompiled.exists_matchName_iff hlibrary.regexMatch_any
    (repeatsNonempty_literals name) (countsBelow_literals name) hlength
  simpa only [mem_language_namePattern_iff hlibrary hname hother] using hmatch

end Names

def unescapeChars : List Char → List Char
  | [] => []
  | '\\' :: char :: expr => char :: unescapeChars expr
  | char :: expr => char :: unescapeChars expr

/-- What `boost::regex` does with `.*` and with escaped texts. -/
def escapedTexts : RegexLibrary where
  markCount _ := .ok 0
  regexMatch expr text := if expr = ['.', '*'] ∨ unescapeChars expr = text then some [] else none
  pointerOrder components := components
  pointerOrder_perm _ := .refl _

theorem unescapeChars_eq {text : List Char} (hescapes : Escapes expr text) :
    unescapeChars expr = text := by
  induction hescapes with
  | nil => rfl
  | @plain char expr text hplain _ ih =>
    have hslash : char ≠ '\\' := by
      rintro rfl
      exact hplain (by decide)
    rw [unescapeChars, ih]
    intro first rest hchar
    exact absurd hchar hslash
  | special _ _ ih => rw [unescapeChars, ih]

theorem escapedTexts_matchesLiterally : escapedTexts.MatchesLiterally where
  markCount_escaped := fun _ _ ↦ rfl
  regexMatch_escaped := by
    intro expr text target hescapes _
    have hany : expr ≠ ['.', '*'] := by
      rintro rfl
      cases hescapes with
      | plain hplain => exact hplain (by decide)
    by_cases hsame : text = target
    · simp [escapedTexts, unescapeChars_eq hescapes, hsame]
    · simp [escapedTexts, hany, unescapeChars_eq hescapes, hsame, Ne.symm hsame]
  markCount_any := rfl
  regexMatch_any := fun _ ↦ by simp [escapedTexts]

/-- The components `...` (as a single period is written) and `%3C+`, and a name that goes on. -/
theorem match_fromName_iff_special :
    ∃ top depth, fromName escapedTexts [.generic [46], .generic [60, 43]] false = .ok top ∧
      ∀ calls ≥ depth, ∀ state, ∃ after, top.matchName escapedTexts calls
        [.generic [46], .generic [60, 43], .generic []] state = some (true, after) := by
  obtain ⟨top, hmake, hmatch⟩ := match_fromName_iff escapedTexts_matchesLiterally
    [.generic [46], .generic [60, 43]] (by decide) false
  obtain ⟨depth, hdepth⟩ :=
    hmatch [.generic [46], .generic [60, 43], .generic []] (by decide) (by decide)
  refine ⟨top, depth, hmake, ?_⟩
  intro calls hcalls state
  obtain ⟨isMatched, after, hrun, hiff⟩ := hdepth calls hcalls state
  have hprefixed : isMatched = true := hiff.mpr ⟨[.generic []], rfl⟩
  exact ⟨after, hprefixed ▸ hrun⟩

end RegexTopMatcher

end NdnCxx
