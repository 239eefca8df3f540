import NdnCxx.Regex.Reading

/-!
# What a pattern is compiled into

A successful compilation reads the text by the grammar and builds one matcher for each item, with
the back references numbered from left to right, a group before the groups inside it.
-/

namespace NdnCxx

namespace Pattern

/-! ## Items and their matchers -/

/-- Component expressions with their marks numbered one after another. -/
inductive CompilesExprs (library : RegexLibrary) :
    List (List Char) → ℕ → List RegexComponentMatcher → ℕ → Prop
  | nil {next : ℕ} : CompilesExprs library [] next [] next
  | cons {expr : List Char} {exprs : List (List Char)} {next markCount last : ℕ}
      {components : List RegexComponentMatcher} :
      library.markCount expr = .ok markCount →
        CompilesExprs library exprs (next + markCount) components last →
          CompilesExprs library (expr :: exprs) next (⟨expr, next, markCount⟩ :: components) last

/-- An operand with its repetition: a group that is not repeated stands for itself. -/
inductive Wraps (operand : RegexMatcher) : Repetition → RegexMatcher → Prop
  | plain : Wraps operand .once operand
  | repeated {repetition : Repetition} : repetition ≠ .once →
      Wraps operand repetition (.repetition operand repetition.bounds.1 repetition.bounds.2)

/-- The items compile into the matchers, and the back references are numbered from the first number
up to the second. -/
inductive Compiles (library : RegexLibrary) :
    List Pattern → ℕ → List RegexMatcher → ℕ → Prop
  | nil {next : ℕ} : Compiles library [] next [] next
  | group {patterns later : List Pattern} {repetition : Repetition} {matcher : RegexMatcher}
      {inner matchers : List RegexMatcher} {backrefNo next last : ℕ} :
      Compiles library patterns (backrefNo + 1) inner next →
        Wraps (.backref backrefNo inner) repetition matcher →
          Compiles library later next matchers last →
            Compiles library (.group patterns repetition :: later) backrefNo (matcher :: matchers)
              last
  | component {later : List Pattern} {repetition : Repetition} {expr : List Char}
      {components : List RegexComponentMatcher} {matchers : List RegexMatcher}
      {backrefNo next last : ℕ} :
      CompilesExprs library [expr] backrefNo components next →
        Compiles library later next matchers last →
          Compiles library (.component expr repetition :: later) backrefNo
            (.repetition (.componentSet true (library.pointerOrder components))
              repetition.bounds.1 repetition.bounds.2 :: matchers) last
  | set {later : List Pattern} {repetition : Repetition} {isInclusion : Bool}
      {exprs : List (List Char)} {components : List RegexComponentMatcher}
      {matchers : List RegexMatcher} {backrefNo next last : ℕ} :
      CompilesExprs library exprs backrefNo components next →
        Compiles library later next matchers last →
          Compiles library (.set isInclusion exprs repetition :: later) backrefNo
            (.repetition (.componentSet isInclusion (library.pointerOrder components))
              repetition.bounds.1 repetition.bounds.2 :: matchers) last

end Pattern

variable {text : List Char} {patterns : List Pattern} {expr : List Char}

namespace RegexMatcher

open Pattern

variable {library : RegexLibrary}

/-! ## Component sets -/

variable {chars : List Char} {components : List RegexComponentMatcher} {depth next : ℕ}

theorem extractComponent_cons {char : Char} (hchar : char ≠ Char.ofNat 0) :
    extractComponent depth (char :: chars) =
      if depthAfter '<' '>' char depth = 0 then .ok ([char], chars)
      else (extractComponent (depthAfter '<' '>' char depth) chars).map
        fun result ↦ (char :: result.1, result.2) := by
  rw [extractComponent, if_neg hchar]
  simp only [depthAfter]
  split_ifs <;> rfl

/-- Apart from null characters, components are cut off as items are. -/
theorem extractComponent_eq_ok {sub rest : List Char}
    (hok : extractComponent depth chars = .ok (sub, rest)) :
    extractSubPattern '<' '>' depth chars = .ok (sub, rest) := by
  induction chars generalizing depth sub rest with
  | nil => simp [extractComponent] at hok
  | cons char chars ih =>
    have hchar : char ≠ Char.ofNat 0 := by
      rintro rfl
      simp [extractComponent] at hok
    rw [extractComponent_cons hchar] at hok
    rw [extractSubPattern_cons]
    split_ifs at hok ⊢
    · exact hok
    · cases hextract : extractComponent (depthAfter '<' '>' char depth) chars with
      | error error => simp [hextract, Except.map] at hok
      | ok result =>
        rw [ih hextract]
        rwa [hextract] at hok

/-- A component expression is balanced and ends at its closing bracket. -/
theorem balanced_of_extractComponent {sub rest : List Char}
    (hok : extractComponent 1 chars = .ok (sub, rest)) :
    ∃ expr, sub = expr ++ ['>'] ∧ chars = expr ++ '>' :: rest ∧ Balanced expr := by
  obtain ⟨expr, hsub, hchars, hcloses⟩ :=
    (extractSubPattern_eq_ok_iff (by decide) (by decide)).mp (extractComponent_eq_ok hok)
  exact ⟨expr, hsub, hchars, closes_angle_iff.mp hcloses⟩

variable {backrefNo : ℕ}

theorem compileComponent_eq_ok {component : RegexComponentMatcher}
    (hok : compileComponent library expr backrefNo = .ok (component, next)) :
    ∃ markCount, library.markCount expr = .ok markCount ∧
      component = ⟨expr, backrefNo, markCount⟩ ∧ next = backrefNo + markCount := by
  obtain ⟨markCount, hcount, hresult⟩ := bind_eq_ok_iff.mp hok
  cases hresult
  exact ⟨markCount, hcount, rfl, rfl⟩

theorem compileSingleComponent_eq_ok
    (hok : compileSingleComponent library ('<' :: expr) backrefNo = .ok (components, next)) :
    ∃ text, expr = text ++ ['>'] ∧ Balanced text ∧
      CompilesExprs library [text] backrefNo components next := by
  obtain ⟨⟨sub, rest⟩, hextract, hrest⟩ := bind_eq_ok_iff.mp hok
  dsimp only at hrest
  split_ifs at hrest with hempty
  obtain rfl : rest = [] := Classical.not_not.mp hempty
  obtain ⟨⟨component, last⟩, hcomponent, hresult⟩ := bind_eq_ok_iff.mp hrest
  cases hresult
  obtain ⟨text, rfl, hexpr, hbalanced⟩ := balanced_of_extractComponent hextract
  rw [List.dropLast_concat] at hcomponent
  obtain ⟨markCount, hcount, rfl, rfl⟩ := compileComponent_eq_ok hcomponent
  exact ⟨text, hexpr, hbalanced, .cons hcount .nil⟩

theorem compileMultipleComponents_eq_ok {rounds : ℕ}
    (hok : compileMultipleComponents library expr rounds chars backrefNo = .ok (components, next)) :
    ∃ exprs last, chars = exprs.flatMap componentText ++ [last] ∧
      (∀ text ∈ exprs, Balanced text) ∧
        CompilesExprs library exprs backrefNo components next := by
  induction rounds generalizing chars backrefNo components with
  | zero =>
    match chars with
    | [] => simp [compileMultipleComponents] at hok
    | [last] =>
      cases hok
      exact ⟨[], last, rfl, by simp, .nil⟩
    | _ :: _ :: _ => simp [compileMultipleComponents] at hok
  | succ rounds ih =>
    match chars with
    | [] => simp [compileMultipleComponents] at hok
    | [last] =>
      cases hok
      exact ⟨[], last, rfl, by simp, .nil⟩
    | char :: second :: chars =>
      rw [compileMultipleComponents] at hok
      · split_ifs at hok with hangle
        obtain rfl : char = '<' := Classical.not_not.mp hangle
        obtain ⟨⟨sub, rest⟩, hextract, hafter⟩ := bind_eq_ok_iff.mp hok
        obtain ⟨⟨component, middle⟩, hcomponent, hmore⟩ := bind_eq_ok_iff.mp hafter
        obtain ⟨⟨later, last⟩, hlater, hresult⟩ := bind_eq_ok_iff.mp hmore
        cases hresult
        obtain ⟨text, rfl, hchars, hbalanced⟩ := balanced_of_extractComponent hextract
        rw [List.dropLast_concat] at hcomponent
        obtain ⟨markCount, hcount, rfl, rfl⟩ := compileComponent_eq_ok hcomponent
        obtain ⟨exprs, end_, hrest, hall, hcompiles⟩ := ih hlater
        refine ⟨text :: exprs, end_, ?_, ?_, .cons hcount hcompiles⟩
        · simp [componentText, hchars, hrest]
        · simpa using ⟨hbalanced, hall⟩
      · simp

theorem compileComponentSet_angle_eq_ok {matcher : RegexMatcher}
    (hok : compileComponentSet library ('<' :: chars) backrefNo = .ok (matcher, next)) :
    ∃ text components, chars = text ++ ['>'] ∧ Balanced text ∧
      CompilesExprs library [text] backrefNo components next ∧
        matcher = .componentSet true (library.pointerOrder components) := by
  by_cases hshort : ('<' :: chars).length < 2
  · rw [compileComponentSet, if_pos hshort] at hok
    cases hok
  rw [compileComponentSet, if_neg hshort] at hok
  obtain ⟨⟨components, last⟩, hsingle, hresult⟩ := bind_eq_ok_iff.mp hok
  cases hresult
  obtain ⟨text, hchars, hbalanced, hcompiles⟩ := compileSingleComponent_eq_ok hsingle
  exact ⟨text, components, hchars, hbalanced, hcompiles, rfl⟩

/-- A set of components compiles as the grammar reads it. -/
theorem compileComponentSet_bracket_eq_ok {chars : List Char} {backrefNo next : ℕ}
    {matcher : RegexMatcher}
    (hok : compileComponentSet library ('[' :: chars) backrefNo = .ok (matcher, next)) :
    ∃ isInclusion exprs components,
      chars = negationText isInclusion ++ (exprs.flatMap componentText ++ [']']) ∧
        (∀ text ∈ exprs, Balanced text) ∧
        CompilesExprs library exprs backrefNo components next ∧
        matcher = .componentSet isInclusion (library.pointerOrder components) := by
  by_cases hshort : ('[' :: chars).length < 2
  · rw [compileComponentSet, if_pos hshort] at hok
    cases hok
  rw [compileComponentSet, if_neg hshort] at hok
  by_cases hlast : ('[' :: chars).getLast? ≠ some ']'
  · dsimp only at hok
    rw [if_pos hlast] at hok
    cases hok
  dsimp only at hok
  rw [if_neg hlast] at hok
  obtain ⟨⟨components, last⟩, hmembers, hresult⟩ := bind_eq_ok_iff.mp hok
  cases hresult
  obtain ⟨exprs, closing, hsplit, hbalanced, hcompiles⟩ :=
    compileMultipleComponents_eq_ok hmembers
  have hwhole : chars = negationText (chars.head? != some '^') ++
      (exprs.flatMap componentText ++ [closing]) := by
    rw [← hsplit]
    cases hhead : chars.head? != some '^' with
    | true => rfl
    | false =>
      cases chars with
      | nil => simp at hhead
      | cons char rest =>
        obtain rfl : char = '^' := by simpa using hhead
        rfl
  have hclosing : closing = ']' := by
    rw [hwhole, ← List.append_assoc, ← List.cons_append, List.getLast?_concat] at hlast
    simpa using hlast
  exact ⟨_, exprs, components, hclosing ▸ hwhole, hbalanced, hcompiles, rfl⟩

/-! ## Pattern lists -/

theorem extractPattern_eq_ok {char : Char} {operand repeatStruct rest : List Char}
    (hok : extractPattern char chars = .ok (operand, repeatStruct, rest)) :
    ∃ right sub, ((char = '(' ∧ right = ')') ∨ (char = '<' ∧ right = '>') ∨
        (char = '[' ∧ right = ']')) ∧
      extractSubPattern char right 1 chars = .ok (sub, repeatStruct ++ rest) ∧
        operand = char :: sub := by
  obtain ⟨⟨sub, afterOperand⟩, hsub, hafter⟩ := bind_eq_ok_iff.mp hok
  obtain ⟨⟨found, behind⟩, hrepetition, hresult⟩ := bind_eq_ok_iff.mp hafter
  cases hresult
  rw [extractRepetition_split hrepetition] at hsub
  unfold extractOperand at hsub
  split_ifs at hsub with hround hangle hsquare
  · exact ⟨')', sub, .inl ⟨hround, rfl⟩, hround ▸ hsub, rfl⟩
  · exact ⟨'>', sub, .inr (.inl ⟨hangle, rfl⟩), hangle ▸ hsub, rfl⟩
  · exact ⟨']', sub, .inr (.inr ⟨hsquare, rfl⟩), hsquare ▸ hsub, rfl⟩

theorem groupContents_eq_ok {text contents : List Char}
    (hok : groupContents ('(' :: (text ++ [')'])) = .ok contents) : contents = text := by
  unfold groupContents at hok
  split_ifs at hok
  cases hok
  exact List.dropLast_concat

theorem exists_wraps {repeatStruct : List Char} {operand matcher : RegexMatcher}
    (hok : wrapGroup expr repeatStruct operand = .ok matcher) :
    ∃ repetition : Repetition, repetition.text = repeatStruct ∧ repetition.IsDecimal ∧
      Wraps operand repetition matcher := by
  unfold wrapGroup at hok
  split_ifs at hok with hempty
  · cases hok
    exact ⟨.once, hempty.symm, by simp [Repetition.IsDecimal, Repetition.counts], .plain⟩
  · obtain ⟨⟨repeatMin, repeatMax⟩, hparse, hresult⟩ := bind_eq_ok_iff.mp hok
    cases hresult
    obtain ⟨repetition, htext, hdecimal, hbounds⟩ :=
      Repetition.exists_of_parseRepetition hparse
    obtain ⟨rfl, rfl⟩ : repetition.bounds.1 = repeatMin ∧ repetition.bounds.2 = repeatMax := by
      simp [hbounds]
    have hrepeated : repetition ≠ .once := by
      rintro rfl
      exact hempty htext.symm
    exact ⟨repetition, htext, hdecimal, .repeated hrepeated⟩

/-- Whatever compiles is spelled by the grammar, and its matchers are those of the items. -/
theorem compilePatternList_eq_ok {last : ℕ} {matchers : List RegexMatcher}
    (hok : compilePatternList library depth text backrefNo = .ok (matchers, last)) :
    ∃ patterns, Spells patterns text ∧ Compiles library patterns backrefNo matchers last := by
  induction depth generalizing text backrefNo matchers last with
  | zero =>
    cases text with
    | nil =>
      cases hok
      exact ⟨[], .nil, .nil⟩
    | cons char chars => cases hok
  | succ depth ih =>
    cases text with
    | nil =>
      cases hok
      exact ⟨[], .nil, .nil⟩
    | cons char chars =>
      rw [compilePatternList] at hok
      obtain ⟨⟨operand, repeatStruct, rest⟩, hextract, hafter⟩ := bind_eq_ok_iff.mp hok
      dsimp only at hafter
      obtain ⟨right, sub, hbrackets, hsub, rfl⟩ := extractPattern_eq_ok hextract
      by_cases hround : char = '('
      · subst hround
        rw [if_pos rfl] at hafter
        obtain rfl : right = ')' := by simpa using hbrackets
        obtain ⟨contents, hcontents, hafter⟩ := bind_eq_ok_iff.mp hafter
        obtain ⟨⟨inner, next⟩, hinner, hafter⟩ := bind_eq_ok_iff.mp hafter
        obtain ⟨matcher, hmatcher, hafter⟩ := bind_eq_ok_iff.mp hafter
        obtain ⟨⟨later, final⟩, hlater, hresult⟩ := bind_eq_ok_iff.mp hafter
        cases hresult
        obtain ⟨body, rfl, rfl, -⟩ :=
          (extractSubPattern_eq_ok_iff (by decide) (by decide)).mp hsub
        obtain rfl := groupContents_eq_ok hcontents
        obtain ⟨patterns, hspells, hcompiles⟩ := ih hinner
        obtain ⟨laterPatterns, hlaterSpells, hlaterCompiles⟩ := ih hlater
        obtain ⟨repetition, rfl, hdecimal, hwraps⟩ := exists_wraps hmatcher
        exact ⟨.group patterns repetition :: laterPatterns,
          .group hspells hdecimal hlaterSpells, .group hcompiles hwraps hlaterCompiles⟩
      · rw [if_neg hround] at hafter
        obtain ⟨⟨set, next⟩, hset, hafter⟩ := bind_eq_ok_iff.mp hafter
        obtain ⟨⟨repeatMin, repeatMax⟩, hrepetition, hafter⟩ := bind_eq_ok_iff.mp hafter
        obtain ⟨⟨later, final⟩, hlater, hresult⟩ := bind_eq_ok_iff.mp hafter
        cases hresult
        obtain ⟨laterPatterns, hlaterSpells, hlaterCompiles⟩ := ih hlater
        obtain ⟨repetition, rfl, hdecimal, hbounds⟩ :=
          Repetition.exists_of_parseRepetition hrepetition
        obtain ⟨rfl, rfl⟩ : repetition.bounds.1 = repeatMin ∧ repetition.bounds.2 = repeatMax := by
          simp [hbounds]
        rcases hbrackets with ⟨rfl, -⟩ | ⟨rfl, rfl⟩ | ⟨rfl, rfl⟩
        · exact absurd rfl hround
        · obtain ⟨body, rfl, rfl, -⟩ :=
            (extractSubPattern_eq_ok_iff (by decide) (by decide)).mp hsub
          obtain ⟨expr, components, hexpr, hbalanced, hcompiles, rfl⟩ :=
            compileComponentSet_angle_eq_ok hset
          obtain rfl : body = expr := by simpa using hexpr
          exact ⟨.component body repetition :: laterPatterns,
            .component hbalanced hdecimal hlaterSpells, .component hcompiles hlaterCompiles⟩
        · obtain ⟨body, rfl, rfl, -⟩ :=
            (extractSubPattern_eq_ok_iff (by decide) (by decide)).mp hsub
          obtain ⟨isInclusion, exprs, components, hmembers, hbalanced, hcompiles, rfl⟩ :=
            compileComponentSet_bracket_eq_ok hset
          obtain rfl : body = negationText isInclusion ++ exprs.flatMap componentText := by
            rw [← List.append_assoc] at hmembers
            exact List.append_cancel_right hmembers
          refine ⟨.set isInclusion exprs repetition :: laterPatterns, ?_,
            .set hcompiles hlaterCompiles⟩
          rw [List.append_assoc]
          exact .set hbalanced hdecimal hlaterSpells

end RegexMatcher

/-! ## Anchors -/

variable {core : List Char}

namespace Pattern

def anyComponents : Pattern := .component ['.', '*'] .zeroOrMore

theorem balanced_of_notMem (hleft : '<' ∉ expr) (hright : '>' ∉ expr) : Balanced expr := by
  refine ⟨by rw [List.count_eq_zero_of_not_mem hleft, List.count_eq_zero_of_not_mem hright], ?_⟩
  intro start hstart
  rw [List.count_eq_zero_of_not_mem fun hmem ↦ hright (hstart.mem hmem)]
  exact Nat.zero_le _

theorem spells_anyComponents (hspells : Spells patterns text) :
    Spells (anyComponents :: patterns) (RegexTopMatcher.anyComponents ++ text) :=
  .component (balanced_of_notMem (by decide) (by decide))
    (by simp [Repetition.IsDecimal, Repetition.counts]) hspells

/-- Where the text `<.*>*` is appended, it is either behind an item or at the end of the last
one. -/
theorem split_item {later : List Pattern} {item rest : List Char} (hlater : Spells later rest)
    (hequal : item ++ rest = core ++ RegexTopMatcher.anyComponents) :
    (∃ middle, core = item ++ middle ∧ rest = middle ++ RegexTopMatcher.anyComponents) ∨
      (rest = [] ∧ item = core ++ RegexTopMatcher.anyComponents) := by
  rcases List.append_eq_append_iff.mp hequal with ⟨middle, hcore, hrest⟩ | ⟨inside, hitem, hany⟩
  · exact .inl ⟨middle, hcore, hrest⟩
  · cases inside with
    | nil => exact .inl ⟨[], by simpa using hitem.symm, by simpa using hany.symm⟩
    | cons char inside =>
      have htail : inside ++ rest = ['.', '*', '>', '*'] := by
        simpa [RegexTopMatcher.anyComponents] using (List.cons.inj hany).2.symm
      have hmem : ∀ char ∈ rest, char ∈ ['.', '*', '>', '*'] := fun char hchar ↦
        htail ▸ List.mem_append_right inside hchar
      cases hlater with
      | nil => exact .inr ⟨rfl, by rw [hitem, hany, List.append_nil]⟩
      | group | component | set =>
        have := hmem _ List.mem_cons_self
        simp at this

variable {repetition : Repetition} {bracket : Char}

/-- The last characters of a repetition that ends in `*`. -/
theorem Repetition.eq_zeroOrMore {item : List Char} (hbracket : bracket ≠ '*')
    (hequal : item ++ bracket :: repetition.text = core ++ RegexTopMatcher.anyComponents) :
    repetition = .zeroOrMore ∧ bracket = '>' ∧ item = core ++ ['<', '.', '*'] := by
  have hreverse := congrArg List.reverse hequal
  cases repetition with
  | once => simp [Repetition.text, RegexTopMatcher.anyComponents, hbracket] at hreverse
  | zeroOrMore =>
    simp only [Repetition.text, RegexTopMatcher.anyComponents, List.reverse_append,
      List.reverse_cons, List.reverse_nil, List.nil_append, List.cons_append, List.cons.injEq,
      true_and] at hreverse
    obtain ⟨rfl, hitem⟩ := hreverse
    exact ⟨rfl, rfl, by simpa using congrArg List.reverse hitem⟩
  | zeroOrOne | oneOrMore | exactly | atLeast | atMost | between =>
    simp [Repetition.text, RegexTopMatcher.anyComponents] at hreverse

/-- If `<.*>*` was appended to a text, it is an item of its own. -/
theorem Spells.exists_of_anyComponents (hspells : Spells patterns text)
    (htext : text = core ++ RegexTopMatcher.anyComponents) :
    ∃ body, patterns = body ++ [anyComponents] ∧ Spells body core := by
  induction hspells generalizing core with
  | nil => simp [RegexTopMatcher.anyComponents] at htext
  | @group inner later repetition text rest hinner hdecimal hlater _ ih =>
    have hsplit : ('(' :: (text ++ ')' :: repetition.text)) ++ rest =
        core ++ RegexTopMatcher.anyComponents := by simpa using htext
    rcases split_item hlater hsplit with ⟨middle, rfl, hrest⟩ | ⟨-, hitem⟩
    · obtain ⟨body, rfl, hbody⟩ := ih hrest
      exact ⟨.group inner repetition :: body, rfl, by simpa using Spells.group hinner hdecimal hbody⟩
    · have hend := Repetition.eq_zeroOrMore (by decide) (List.cons_append ▸ hitem)
      exact absurd hend.2.1 (by decide)
  | @component later repetition expr rest hbalanced hdecimal hlater ih =>
    have hsplit : ('<' :: (expr ++ '>' :: repetition.text)) ++ rest =
        core ++ RegexTopMatcher.anyComponents := by simpa using htext
    rcases split_item hlater hsplit with ⟨middle, rfl, hrest⟩ | ⟨rfl, hitem⟩
    · obtain ⟨body, rfl, hbody⟩ := ih hrest
      exact ⟨.component expr repetition :: body, rfl,
        by simpa using Spells.component hbalanced hdecimal hbody⟩
    · obtain ⟨rfl, -, hexpr⟩ := Repetition.eq_zeroOrMore (by decide) (List.cons_append ▸ hitem)
      cases hlater
      cases core with
      | nil =>
        obtain rfl : expr = ['.', '*'] := by simpa using hexpr
        exact ⟨[], rfl, .nil⟩
      | cons char core =>
        -- the bracket in front of `.*` would be closed twice
        obtain rfl : expr = core ++ ['<', '.', '*'] := (List.cons.inj hexpr).2
        have hstart := hbalanced.2 core (List.prefix_append core _)
        have htotal := hbalanced.1
        simp at htotal
        omega
  | @set later repetition isInclusion exprs rest hbalanced hdecimal hlater ih =>
    have hsplit : ('[' :: (negationText isInclusion ++ (exprs.flatMap componentText ++
        ']' :: repetition.text))) ++ rest = core ++ RegexTopMatcher.anyComponents := by
      simpa using htext
    rcases split_item hlater hsplit with ⟨middle, rfl, hrest⟩ | ⟨-, hitem⟩
    · obtain ⟨body, rfl, hbody⟩ := ih hrest
      exact ⟨.set isInclusion exprs repetition :: body, rfl,
        by simpa using Spells.set hbalanced hdecimal hbody⟩
    · rw [← List.append_assoc, ← List.cons_append] at hitem
      have hend := Repetition.eq_zeroOrMore (by decide) hitem
      exact absurd hend.2.1 (by decide)

/-- No repetition ends in a dollar sign. -/
theorem Repetition.getLast_ne (repetition : Repetition) :
    repetition.text.getLast? ≠ some '$' := by
  cases repetition with
  | exactly count =>
    have htext : (exactly count).text = ('{' :: count) ++ ['}'] := rfl
    rw [htext, List.getLast?_concat]
    decide
  | atLeast low =>
    have htext : (atLeast low).text = ('{' :: (low ++ [','])) ++ ['}'] := by simp [text]
    rw [htext, List.getLast?_concat]
    decide
  | atMost high =>
    have htext : (atMost high).text = ('{' :: ',' :: high) ++ ['}'] := rfl
    rw [htext, List.getLast?_concat]
    decide
  | between low high =>
    have htext : (between low high).text = ('{' :: (low ++ ',' :: high)) ++ ['}'] := by
      simp [text]
    rw [htext, List.getLast?_concat]
    decide
  | once | zeroOrOne | oneOrMore | zeroOrMore => decide

theorem getLast_item_ne {start rest : List Char} (hbracket : bracket ≠ '$')
    (hrest : rest.getLast? ≠ some '$') :
    (start ++ bracket :: (repetition.text ++ rest)).getLast? ≠ some '$' := by
  have hsplit : start ++ bracket :: (repetition.text ++ rest) =
      start ++ [bracket] ++ repetition.text ++ rest := by simp
  rw [hsplit, List.getLast?_append, List.getLast?_append, List.getLast?_concat]
  intro hlast
  cases hfound : rest.getLast? with
  | some last =>
    rw [hfound] at hlast hrest
    exact hrest hlast
  | none =>
    rw [hfound, Option.none_or] at hlast
    cases htext : repetition.text.getLast? with
    | some last =>
      rw [htext] at hlast
      exact repetition.getLast_ne (htext.trans hlast)
    | none =>
      rw [htext] at hlast
      exact hbracket (by simpa using hlast)

theorem Spells.getLast_ne (hspells : Spells patterns text) : text.getLast? ≠ some '$' := by
  induction hspells with
  | nil => simp
  | group _ _ _ _ ih =>
    rw [← List.cons_append]
    exact getLast_item_ne (by decide) ih
  | component _ _ _ ih =>
    rw [← List.cons_append]
    exact getLast_item_ne (by decide) ih
  | set _ _ _ ih =>
    rw [← List.append_assoc, ← List.cons_append]
    exact getLast_item_ne (by decide) ih

theorem Spells.head_ne (hspells : Spells patterns text) :
    text.head? ≠ some '^' ∧ text.head? ≠ some '$' := by
  cases hspells <;> simp

end Pattern

namespace TopPattern

open Pattern

/-- The items that the primary matcher is compiled from. -/
def primaryPatterns (pattern : TopPattern) : List Pattern :=
  pattern.patterns ++ if pattern.isEndAnchored then [] else [anyComponents]

variable {pattern : TopPattern}

theorem Spells.isStartAnchored_iff (hspells : pattern.Spells text) :
    pattern.isStartAnchored = true ↔ text.head? = some '^' := by
  obtain ⟨body, hbody, rfl⟩ := hspells
  cases pattern.isStartAnchored with
  | true => simp
  | false =>
    have hhead := hbody.head_ne.1
    cases body with
    | nil => cases pattern.isEndAnchored <;> simp
    | cons char chars => simpa using hhead

theorem Spells.isEndAnchored_iff (hspells : pattern.Spells text) :
    pattern.isEndAnchored = true ↔ text.getLast? = some '$' := by
  obtain ⟨body, hbody, rfl⟩ := hspells
  cases pattern.isEndAnchored with
  | true => simp
  | false =>
    have hlast := hbody.getLast_ne
    cases hfound : body.getLast? with
    | none =>
      obtain rfl : body = [] := List.getLast?_eq_none_iff.mp hfound
      cases pattern.isStartAnchored <;> simp
    | some last =>
      rw [hfound] at hlast
      simpa [hfound] using hlast

/-- A text is spelled by one pattern at most. -/
theorem Spells.unique {pattern' : TopPattern} (hspells : pattern.Spells text)
    (hspells' : pattern'.Spells text) : pattern = pattern' := by
  have hstart : pattern.isStartAnchored = pattern'.isStartAnchored :=
    Bool.eq_iff_iff.mpr (hspells.isStartAnchored_iff.trans hspells'.isStartAnchored_iff.symm)
  have hend : pattern.isEndAnchored = pattern'.isEndAnchored :=
    Bool.eq_iff_iff.mpr (hspells.isEndAnchored_iff.trans hspells'.isEndAnchored_iff.symm)
  obtain ⟨body, hbody, htext⟩ := hspells
  obtain ⟨body', hbody', htext'⟩ := hspells'
  have hsame : body = body' := by
    rw [htext, hstart, hend] at htext'
    exact List.append_cancel_right (List.append_cancel_left htext')
  have hpatterns : pattern.patterns = pattern'.patterns := hbody.unique (hsame ▸ hbody')
  cases pattern
  cases pattern'
  exact congr (congr (congrArg mk hstart) hpatterns) hend

end TopPattern

namespace RegexTopMatcher

open RegexMatcher

variable {library : RegexLibrary}

/-- What the text of a pattern is compiled into: the matcher of its items, and without an anchor at
the start a second one that lets any components stand in front of them. -/
structure CompiledFrom (library : RegexLibrary) (pattern : TopPattern) (top : RegexTopMatcher) :
    Prop where
  primary : Pattern.Compiles library pattern.primaryPatterns 0 top.primary top.primarySize
  secondary : if pattern.isStartAnchored then top.secondary = none
    else ∃ matchers size, top.secondary = some (matchers, size) ∧
      Pattern.Compiles library (Pattern.anyComponents :: pattern.primaryPatterns) 0 matchers size

/-- The items of a text whose end was closed by `compile` -/
theorem exists_body (hspells : Pattern.Spells patterns expr)
    (hexpr : expr = if text.getLast? ≠ some '$' then text ++ anyComponents else text.dropLast) :
    ∃ body items, Pattern.Spells items body ∧
      text = body ++ (if text.getLast? = some '$' then ['$'] else []) ∧
        patterns = items ++ if text.getLast? = some '$' then [] else [Pattern.anyComponents] := by
  by_cases hlast : text.getLast? = some '$'
  · rw [if_neg (Classical.not_not.mpr hlast)] at hexpr
    subst hexpr
    refine ⟨text.dropLast, patterns, hspells, ?_, by simp [hlast]⟩
    rw [if_pos hlast]
    exact (List.dropLast_append_getLast? '$' hlast).symm
  · rw [if_pos hlast] at hexpr
    obtain ⟨items, rfl, hitems⟩ := hspells.exists_of_anyComponents hexpr
    exact ⟨text, items, hitems, by simp [hlast], by simp [hlast]⟩

theorem getLast_cons_eq_dollar : ('^' :: core).getLast? = some '$' ↔ core.getLast? = some '$' := by
  cases core with
  | nil => simp
  | cons char chars => rw [List.getLast?_cons_cons]

/-- Closing the end of a text leaves its start alone. -/
theorem exists_of_head_eq (hnonempty : text ≠ [])
    (hexpr : expr = if text.getLast? ≠ some '$' then text ++ anyComponents else text.dropLast)
    (hhead : expr.head? = some '^') :
    ∃ core, text = '^' :: core ∧ expr.tail =
      if core.getLast? ≠ some '$' then core ++ anyComponents else core.dropLast := by
  cases text with
  | nil => exact absurd rfl hnonempty
  | cons char core =>
    by_cases hlast : (char :: core).getLast? = some '$'
    · rw [if_neg (Classical.not_not.mpr hlast)] at hexpr
      cases core with
      | nil => simp [hexpr] at hhead
      | cons second chars =>
        obtain rfl : char = '^' := by simpa [hexpr] using hhead
        have hcore := getLast_cons_eq_dollar.mp hlast
        exact ⟨second :: chars, rfl, by simp [hexpr, hcore]⟩
    · rw [if_pos hlast] at hexpr
      obtain rfl : char = '^' := by simpa [hexpr] using hhead
      have hcore := mt getLast_cons_eq_dollar.mpr hlast
      exact ⟨core, rfl, by simp [hexpr, hcore]⟩

/-- A text that compiles is spelled by a pattern, and compiled from it. -/
theorem exists_of_compile {top : RegexTopMatcher} (hnonempty : text ≠ [])
    (hok : compile library text = .ok top) :
    ∃ pattern : TopPattern, pattern.Spells text ∧ CompiledFrom library pattern top := by
  unfold compile at hok
  set expr := if text.getLast? ≠ some '$' then text ++ anyComponents else text.dropLast with hexpr
  dsimp only at hok
  split_ifs at hok with hhead
  · obtain ⟨⟨matchers, size⟩, hsecondary, hok⟩ := bind_eq_ok_iff.mp hok
    obtain ⟨⟨primary, primarySize⟩, hprimary, hresult⟩ := bind_eq_ok_iff.mp hok
    cases hresult
    obtain ⟨patterns, hspells, hcompiles⟩ := compilePatternList_eq_ok hprimary
    obtain ⟨patterns', hspells', hcompiles'⟩ := compilePatternList_eq_ok hsecondary
    obtain rfl : patterns' = Pattern.anyComponents :: patterns :=
      hspells'.unique (Pattern.spells_anyComponents hspells)
    obtain ⟨body, items, hitems, htext, hpatterns⟩ := exists_body hspells hexpr
    refine ⟨⟨false, items, decide (text.getLast? = some '$')⟩, ⟨body, hitems, by simpa using htext⟩,
      ?_, ?_⟩
    · simpa [TopPattern.primaryPatterns, ← hpatterns] using hcompiles
    · exact ⟨matchers, size, rfl, by
        simpa [TopPattern.primaryPatterns, ← hpatterns] using hcompiles'⟩
  · obtain ⟨⟨primary, primarySize⟩, hprimary, hresult⟩ := bind_eq_ok_iff.mp hok
    cases hresult
    obtain ⟨patterns, hspells, hcompiles⟩ := compilePatternList_eq_ok hprimary
    obtain ⟨core, rfl, htail⟩ :=
      exists_of_head_eq hnonempty hexpr (Classical.not_not.mp hhead)
    obtain ⟨body, items, hitems, htext, hpatterns⟩ := exists_body hspells htail
    refine ⟨⟨true, items, decide (core.getLast? = some '$')⟩,
      ⟨body, hitems, by simpa using htext⟩, ?_, rfl⟩
    simpa [TopPattern.primaryPatterns, ← hpatterns] using hcompiles

end RegexTopMatcher

end NdnCxx
