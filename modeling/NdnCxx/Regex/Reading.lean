import NdnCxx.Regex.Grammar

/-!
# Reading patterns

The functions that cut a pattern text into pieces find exactly the pieces of the grammar. It
follows that a text has one reading only, and that every text that compiles has one.
-/

namespace NdnCxx

variable {text : List Char} {rest : List Char} {char : Char} {repetition : Repetition}

namespace RegexMatcher

/-- The text closes `depth` open brackets with the bracket behind it, and not before. -/
def Closes (left right : Char) (depth : ℕ) (text : List Char) : Prop :=
  text.count right + 1 = depth + text.count left ∧
    ∀ start, start <+: text → start.count right < depth + start.count left

variable {depth : ℕ}

theorem closes_nil {left right : Char} : Closes left right depth [] ↔ depth = 1 := by
  simp only [Closes, List.count_nil, List.prefix_nil, forall_eq]
  omega

/-- `lcount - rcount` behind one more character. -/
def depthAfter (left right char : Char) (depth : ℕ) : ℕ :=
  let opened := if char = left then depth + 1 else depth
  if char = right then opened - 1 else opened

theorem closes_cons {left right : Char} (hne : left ≠ right) :
    Closes left right depth (char :: text) ↔
      0 < depth ∧ Closes left right (depthAfter left right char depth) text := by
  have hcounts : ∀ start : List Char, 0 < depth →
      ((char :: start).count right < depth + (char :: start).count left ↔
        start.count right < depthAfter left right char depth + start.count left) := by
    intro start hpos
    simp only [depthAfter, List.count_cons, beq_iff_eq]
    split_ifs <;> simp_all <;> omega
  have htotal : 0 < depth →
      ((char :: text).count right + 1 = depth + (char :: text).count left ↔
        text.count right + 1 = depthAfter left right char depth + text.count left) := by
    intro hpos
    simp only [depthAfter, List.count_cons, beq_iff_eq]
    split_ifs <;> simp_all <;> omega
  constructor
  · rintro ⟨hclosed, hopen⟩
    have hpos : 0 < depth := by simpa using hopen [] List.nil_prefix
    refine ⟨hpos, (htotal hpos).mp hclosed, fun start hstart ↦ ?_⟩
    exact (hcounts start hpos).mp (hopen (char :: start) ((List.prefix_cons_inj char).mpr hstart))
  · rintro ⟨hpos, hclosed, hopen⟩
    refine ⟨(htotal hpos).mpr hclosed, fun start hstart ↦ ?_⟩
    rcases List.prefix_cons_iff.mp hstart with rfl | ⟨later, rfl, hlater⟩
    · simpa using hpos
    · exact (hcounts later hpos).mpr (hopen later hlater)

variable {chars : List Char}

theorem extractSubPattern_cons {left right : Char} :
    extractSubPattern left right depth (char :: chars) =
      if depthAfter left right char depth = 0 then .ok ([char], chars)
      else (extractSubPattern left right (depthAfter left right char depth) chars).map
        fun result ↦ (char :: result.1, result.2) := by
  rw [extractSubPattern]
  simp only [depthAfter]
  split_ifs <;> rfl

theorem extractSubPattern_eq_ok_iff {left right : Char} {sub : List Char} (hne : left ≠ right)
    (hpos : 0 < depth) :
    extractSubPattern left right depth chars = .ok (sub, rest) ↔
      ∃ text, sub = text ++ [right] ∧ chars = text ++ right :: rest ∧
        Closes left right depth text := by
  induction chars generalizing depth sub with
  | nil => simp [extractSubPattern]
  | cons char chars ih =>
    rw [extractSubPattern_cons]
    split_ifs with hzero
    · have hlast : char = right ∧ depth = 1 := by
        simp only [depthAfter] at hzero
        split_ifs at hzero <;> simp_all
        omega
      obtain ⟨rfl, rfl⟩ := hlast
      constructor
      · intro hok
        cases hok
        exact ⟨[], rfl, rfl, closes_nil.mpr rfl⟩
      · rintro ⟨text, rfl, hchars, hcloses⟩
        cases text with
        | nil =>
          cases hchars
          rfl
        | cons first text =>
          cases hchars
          have hlate := ((closes_cons hne).mp hcloses).2.2 [] List.nil_prefix
          simp [hzero] at hlate
    · have hdeeper := @ih (depthAfter left right char depth)
      constructor
      · intro hok
        cases hextract : extractSubPattern left right (depthAfter left right char depth) chars with
        | error error => simp [hextract, Except.map] at hok
        | ok result =>
          obtain ⟨rfl, rfl⟩ : char :: result.1 = sub ∧ result.2 = rest := by
            simpa [hextract, Except.map] using hok
          obtain ⟨text, hsub, hchars, hcloses⟩ := (hdeeper (Nat.pos_of_ne_zero hzero)).mp hextract
          refine ⟨char :: text, by simp [hsub], by simp [hchars], ?_⟩
          exact (closes_cons hne).mpr ⟨hpos, hcloses⟩
      · rintro ⟨text, rfl, hchars, hcloses⟩
        cases text with
        | nil =>
          cases hchars
          obtain rfl := closes_nil.mp hcloses
          simp [depthAfter, hne.symm] at hzero
        | cons first text =>
          cases hchars
          have hinner := ((closes_cons hne).mp hcloses).2
          rw [(hdeeper (Nat.pos_of_ne_zero hzero)).mpr ⟨text, rfl, rfl, hinner⟩]
          rfl

theorem closes_angle_iff : Closes '<' '>' 1 text ↔ Pattern.Balanced text := by
  simp only [Closes, Pattern.Balanced, Nat.add_comm 1, Nat.add_right_cancel_iff, Nat.lt_succ_iff]

theorem extractBraces_append (text rest : List Char) (hbrace : '}' ∉ text) :
    extractBraces (text ++ '}' :: rest) = .ok (text ++ ['}'], rest) := by
  induction text with
  | nil => rfl
  | cons char text ih =>
    obtain ⟨hchar, htext⟩ : '}' ≠ char ∧ '}' ∉ text := by simpa using hbrace
    simp [extractBraces, hchar.symm, ih htext, bind, Except.bind, pure, Except.pure]

theorem extractBraces_split {sub : List Char} (hok : extractBraces chars = .ok (sub, rest)) :
    chars = sub ++ rest := by
  induction chars generalizing sub with
  | nil => simp [extractBraces] at hok
  | cons char chars ih =>
    rw [extractBraces] at hok
    split_ifs at hok
    · cases hok
      rfl
    · cases hextract : extractBraces chars with
      | error error => simp [hextract, bind, Except.bind] at hok
      | ok result =>
        obtain ⟨rfl, rfl⟩ : char :: result.1 = sub ∧ result.2 = rest := by
          simpa [hextract, bind, Except.bind, pure, Except.pure] using hok
        rw [ih hextract]
        rfl

theorem extractRepetition_split {sub : List Char}
    (hok : extractRepetition chars = .ok (sub, rest)) : chars = sub ++ rest := by
  cases chars with
  | nil =>
    cases hok
    rfl
  | cons char chars =>
    rw [extractRepetition] at hok
    split_ifs at hok
    · cases hok
      rfl
    · exact extractBraces_split hok
    · cases hok
      rfl

theorem extractSubPattern_of_balanced {expr : List Char} (rest : List Char)
    (hbalanced : Pattern.Balanced expr) :
    extractSubPattern '<' '>' 1 (expr ++ '>' :: rest) = .ok (expr ++ ['>'], rest) :=
  (extractSubPattern_eq_ok_iff (by decide) (by decide)).mpr
    ⟨expr, rfl, rfl, closes_angle_iff.mpr hbalanced⟩

end RegexMatcher

namespace Pattern.Repetition

open RegexMatcher

def bounds : Repetition → ℕ × ℕ
  | once => (1, 1)
  | zeroOrOne => (0, 1)
  | oneOrMore => (1, maxRepetitions)
  | zeroOrMore => (0, maxRepetitions)
  | exactly count => (atoi count, atoi count)
  | atLeast low => (atoi low, maxRepetitions)
  | atMost high => (0, atoi high)
  | between low high => (atoi low, atoi high)

def ofText : List Char → Repetition
  | [] => once
  | ['?'] => zeroOrOne
  | ['+'] => oneOrMore
  | ['*'] => zeroOrMore
  | text =>
      let body := text.tail.dropLast
      let low := body.takeWhile (· != ',')
      match body.dropWhile (· != ',') with
      | [] => exactly body
      | _ :: high =>
          if low.isEmpty then atMost high
          else if high.isEmpty then atLeast low
          else between low high

theorem ne_nil_of_isDigits (hdigits : isDigits text = true) : text ≠ [] := by
  rintro rfl
  simp [isDigits] at hdigits

theorem notMem_of_isDigits (hdigits : isDigits text = true) (hchar : char.isDigit = false) :
    char ∉ text := by
  simp only [isDigits, Bool.and_eq_true, List.all_eq_true] at hdigits
  intro hmem
  simp [hdigits.2 char hmem] at hchar

theorem ne_comma (hcomma : ',' ∉ text) : ∀ char ∈ text, (char != ',') = true := by
  intro char hchar
  simpa using fun hequal : char = ',' ↦ hcomma (hequal ▸ hchar)

theorem takeWhile_comma (rest : List Char) (hcomma : ',' ∉ text) :
    (text ++ ',' :: rest).takeWhile (· != ',') = text := by
  simp [List.takeWhile_append_of_pos (ne_comma hcomma)]

theorem dropWhile_comma (rest : List Char) (hcomma : ',' ∉ text) :
    (text ++ ',' :: rest).dropWhile (· != ',') = ',' :: rest := by
  simp [List.dropWhile_append_of_pos (ne_comma hcomma)]

theorem dropWhile_eq_nil (hcomma : ',' ∉ text) : text.dropWhile (· != ',') = [] := by
  calc
    _ = (text ++ []).dropWhile (· != ',') := by rw [List.append_nil]
    _ = _ := List.dropWhile_append_of_pos (ne_comma hcomma)

theorem dropLast_cons_concat (char last : Char) (text : List Char) :
    (char :: (text ++ [last])).dropLast = char :: text := by
  rw [← List.cons_append, List.dropLast_concat]

/-- A repetition is determined by its text. -/
theorem ofText_text (hdecimal : repetition.IsDecimal) : ofText repetition.text = repetition := by
  cases repetition with
  | once | zeroOrOne | oneOrMore | zeroOrMore => rfl
  | exactly count =>
    have hdigits := hdecimal count (by simp [counts])
    have hcomma := notMem_of_isDigits hdigits (by decide : ','.isDigit = false)
    simp [text, ofText, dropWhile_eq_nil hcomma]
  | atLeast low =>
    have hdigits := hdecimal low (by simp [counts])
    have hcomma := notMem_of_isDigits hdigits (by decide : ','.isDigit = false)
    have hbody : (low ++ [',', '}']).dropLast = low ++ [','] := by
      rw [List.dropLast_append_of_ne_nil (by simp)]
      rfl
    simp [text, ofText, hbody, takeWhile_comma [] hcomma, dropWhile_comma [] hcomma,
      ne_nil_of_isDigits hdigits]
  | atMost high => simp [text, ofText, dropLast_cons_concat]
  | between low high =>
    have hdigits := hdecimal low (by simp [counts])
    have hcomma := notMem_of_isDigits hdigits (by decide : ','.isDigit = false)
    have hhigh := ne_nil_of_isDigits (hdecimal high (by simp [counts]))
    have hbody : (low ++ ',' :: (high ++ ['}'])).dropLast = low ++ ',' :: high := by
      rw [List.dropLast_append_of_ne_nil (by simp), dropLast_cons_concat]
    simp [text, ofText, hbody, takeWhile_comma high hcomma, dropWhile_comma high hcomma,
      ne_nil_of_isDigits hdigits, hhigh]

theorem eq_braces {text : List Char} (hhead : text.head? = some '{')
    (hlast : text.getLast? = some '}') : ∃ body, text = '{' :: (body ++ ['}']) := by
  cases text with
  | nil => simp at hhead
  | cons char chars =>
    obtain rfl : char = '{' := by simpa using hhead
    rcases List.eq_nil_or_concat chars with rfl | ⟨body, last, rfl⟩
    · simp at hlast
    · rw [List.concat_eq_append] at hlast ⊢
      rw [← List.cons_append, List.getLast?_concat] at hlast
      obtain rfl : last = '}' := Option.some.inj hlast
      exact ⟨body, rfl⟩

theorem eq_comma_of_dropWhile {body high : List Char}
    (hdrop : body.dropWhile (· != ',') = char :: high) : char = ',' := by
  have hhead := List.head?_dropWhile_not (· != ',') body
  simpa [hdrop] using hhead

theorem exists_of_parseBraces {expr repeatStruct : List Char} {found : ℕ × ℕ}
    (hparse : parseBraces expr repeatStruct = .ok found) :
    ∃ repetition : Repetition, repetition.text = repeatStruct ∧ repetition.IsDecimal ∧
      repetition.bounds = found := by
  unfold parseBraces at hparse
  split_ifs at hparse with hends
  obtain ⟨body, rfl⟩ := eq_braces hends.1 hends.2
  have hbody : ('{' :: (body ++ ['}'])).tail.dropLast = body := List.dropLast_concat
  simp only [hbody] at hparse
  cases hdrop : body.dropWhile (· != ',') with
  | nil =>
    simp only [hdrop] at hparse
    split_ifs at hparse with hdigits
    cases hparse
    exact ⟨.exactly body, rfl, by simpa [IsDecimal, counts] using hdigits, rfl⟩
  | cons comma high =>
    obtain rfl := eq_comma_of_dropWhile hdrop
    have hsplit : body.takeWhile (· != ',') ++ ',' :: high = body := by
      rw [← hdrop, List.takeWhile_append_dropWhile]
    simp only [hdrop, Bool.and_eq_true, List.isEmpty_iff] at hparse
    generalize body.takeWhile (· != ',') = low at hparse hsplit
    subst hsplit
    split_ifs at hparse with hboth hmost hleast
    · cases hparse
      exact ⟨.between low high, by simp [text], by simpa [IsDecimal, counts] using hboth, rfl⟩
    · cases hparse
      obtain ⟨rfl, hdigits⟩ := hmost
      exact ⟨.atMost high, rfl, by simpa [IsDecimal, counts] using hdigits, rfl⟩
    · cases hparse
      obtain ⟨hdigits, rfl⟩ := hleast
      exact ⟨.atLeast low, by simp [text], by simpa [IsDecimal, counts] using hdigits, rfl⟩

/-- What `parseRepetition` accepts is the text of a repetition. -/
theorem exists_of_parseRepetition {expr repeatStruct : List Char} {repeatMin repeatMax : ℕ}
    (hparse : parseRepetition expr repeatStruct = .ok (repeatMin, repeatMax)) :
    ∃ repetition : Repetition, repetition.text = repeatStruct ∧ repetition.IsDecimal ∧
      repetition.bounds = (repeatMin, repeatMax) := by
  unfold parseRepetition at hparse
  split at hparse
  · cases hparse
    exact ⟨.once, rfl, by simp [IsDecimal, counts], rfl⟩
  · cases hparse
    exact ⟨.zeroOrOne, rfl, by simp [IsDecimal, counts], rfl⟩
  · cases hparse
    exact ⟨.oneOrMore, rfl, by simp [IsDecimal, counts], rfl⟩
  · cases hparse
    exact ⟨.zeroOrMore, rfl, by simp [IsDecimal, counts], rfl⟩
  · cases hbraces : parseBraces expr repeatStruct with
    | error error => simp [hbraces, bind, Except.bind] at hparse
    | ok found =>
      have hfound : found = (repeatMin, repeatMax) := by
        simp only [hbraces, bind, Except.bind] at hparse
        split_ifs at hparse
        simpa [pure, Except.pure] using hparse
      exact hfound ▸ exists_of_parseBraces hbraces

def Continues (rest : List Char) : Prop :=
  rest.head? = some '+' ∨ rest.head? = some '?' ∨ rest.head? = some '*' ∨ rest.head? = some '{'

theorem extractRepetition_text_append (hdecimal : repetition.IsDecimal) (hrest : ¬ Continues rest) :
    extractRepetition (repetition.text ++ rest) = .ok (repetition.text, rest) := by
  have hbrace : ∀ count ∈ repetition.counts, '}' ∉ count := fun count hcount ↦
    notMem_of_isDigits (hdecimal count hcount) (by decide)
  cases repetition with
  | once =>
    cases rest with
    | nil => rfl
    | cons char rest =>
      simp only [Continues, List.head?_cons, Option.some.injEq, not_or] at hrest
      simp [text, extractRepetition, hrest]
  | zeroOrOne | oneOrMore | zeroOrMore => rfl
  | exactly count =>
    have hread := extractBraces_append ('{' :: count) rest (by simpa [counts] using hbrace)
    simpa [text, extractRepetition] using hread
  | atLeast low =>
    have hread := extractBraces_append ('{' :: (low ++ [','])) rest
      (by simpa [counts] using hbrace)
    simpa [text, extractRepetition] using hread
  | atMost high =>
    have hread := extractBraces_append ('{' :: ',' :: high) rest (by simpa [counts] using hbrace)
    simpa [text, extractRepetition] using hread
  | between low high =>
    have hread := extractBraces_append ('{' :: (low ++ ',' :: high)) rest
      (by simpa [counts] using hbrace)
    simpa [text, extractRepetition] using hread

end Pattern.Repetition

namespace Pattern

/-- What may stand behind a list of items. -/
def Stops (rest : List Char) : Prop := rest = [] ∨ rest.head? = some ')'

theorem Stops.not_continues (hstops : Stops rest) : ¬ Repetition.Continues rest := by
  rcases hstops with rfl | hhead
  · simp [Repetition.Continues]
  · simp [Repetition.Continues, hhead]

variable {patterns : List Pattern}

theorem Spells.not_continues (hspells : Spells patterns text)
    (hrest : ¬ Repetition.Continues rest) : ¬ Repetition.Continues (text ++ rest) := by
  cases hspells with
  | nil => exact hrest
  | group | component | set => simp [Repetition.Continues]

variable {rest' : List Char}

theorem repetition_unique {repetition' : Repetition} (hdecimal : repetition.IsDecimal)
    (hdecimal' : repetition'.IsDecimal) (hrest : ¬ Repetition.Continues rest)
    (hrest' : ¬ Repetition.Continues rest')
    (hequal : repetition.text ++ rest = repetition'.text ++ rest') :
    repetition = repetition' ∧ rest = rest' := by
  have hread := Repetition.extractRepetition_text_append hdecimal hrest
  rw [hequal, Repetition.extractRepetition_text_append hdecimal' hrest'] at hread
  obtain ⟨htext, hsame⟩ : repetition'.text = repetition.text ∧ rest' = rest := by
    simpa using hread
  refine ⟨?_, hsame.symm⟩
  rw [← Repetition.ofText_text hdecimal, ← Repetition.ofText_text hdecimal', htext]

theorem component_unique {expr expr' : List Char} (hbalanced : Balanced expr)
    (hbalanced' : Balanced expr') (hequal : expr ++ '>' :: rest = expr' ++ '>' :: rest') :
    expr = expr' ∧ rest = rest' := by
  have hread := RegexMatcher.extractSubPattern_of_balanced rest hbalanced
  rw [hequal, RegexMatcher.extractSubPattern_of_balanced rest' hbalanced'] at hread
  simpa [eq_comm] using hread

theorem set_unique {exprs exprs' : List (List Char)} (hbalanced : ∀ expr ∈ exprs, Balanced expr)
    (hbalanced' : ∀ expr ∈ exprs', Balanced expr)
    (hequal : exprs.flatMap componentText ++ ']' :: rest =
      exprs'.flatMap componentText ++ ']' :: rest') : exprs = exprs' ∧ rest = rest' := by
  induction exprs generalizing exprs' with
  | nil =>
    cases exprs' with
    | nil => simpa using hequal
    | cons expr' exprs' => simp [componentText] at hequal
  | cons expr exprs ih =>
    cases exprs' with
    | nil => simp [componentText] at hequal
    | cons expr' exprs' =>
      simp only [List.forall_mem_cons] at hbalanced hbalanced'
      have htail : expr ++ '>' :: (exprs.flatMap componentText ++ ']' :: rest) =
          expr' ++ '>' :: (exprs'.flatMap componentText ++ ']' :: rest') := by
        simpa [componentText] using hequal
      obtain ⟨rfl, hlater⟩ := component_unique hbalanced.1 hbalanced'.1 htail
      obtain ⟨rfl, rfl⟩ := ih hbalanced.2 hbalanced'.2 hlater
      exact ⟨rfl, rfl⟩

theorem Spells.unique_of_stops {patterns' : List Pattern} {text' : List Char}
    (hspells : Spells patterns text) (hspells' : Spells patterns' text') (hrest : Stops rest)
    (hrest' : Stops rest') (hequal : text ++ rest = text' ++ rest') :
    patterns = patterns' ∧ rest = rest' := by
  induction hspells generalizing patterns' text' rest rest' with
  | nil =>
    cases hspells' with
    | nil => exact ⟨rfl, hequal⟩
    | group | component | set =>
      rw [List.nil_append] at hequal
      subst hequal
      simp [Stops] at hrest
  | @group patterns later repetition text tail hinner hdecimal hlater ihinner ihlater =>
    cases hspells' with
    | nil =>
      rw [List.nil_append] at hequal
      subst hequal
      simp [Stops] at hrest'
    | component | set => simp at hequal
    | @group patterns' later' repetition' text' tail' hinner' hdecimal' hlater' =>
      have hinside : text ++ ')' :: (repetition.text ++ (tail ++ rest)) =
          text' ++ ')' :: (repetition'.text ++ (tail' ++ rest')) := by simpa using hequal
      obtain ⟨rfl, hbehind⟩ := ihinner hinner' (.inr rfl) (.inr rfl) hinside
      obtain ⟨rfl, htail⟩ := repetition_unique hdecimal hdecimal'
        (hlater.not_continues hrest.not_continues) (hlater'.not_continues hrest'.not_continues)
        (List.cons.inj hbehind).2
      obtain ⟨rfl, rfl⟩ := ihlater hlater' hrest hrest' htail
      exact ⟨rfl, rfl⟩
  | @component later repetition expr tail hbalanced hdecimal hlater ihlater =>
    cases hspells' with
    | nil =>
      rw [List.nil_append] at hequal
      subst hequal
      simp [Stops] at hrest'
    | group | set => simp at hequal
    | @component later' repetition' expr' tail' hbalanced' hdecimal' hlater' =>
      obtain ⟨rfl, hbehind⟩ := component_unique hbalanced hbalanced' (by simpa using hequal)
      obtain ⟨rfl, htail⟩ := repetition_unique hdecimal hdecimal'
        (hlater.not_continues hrest.not_continues) (hlater'.not_continues hrest'.not_continues)
        hbehind
      obtain ⟨rfl, rfl⟩ := ihlater hlater' hrest hrest' htail
      exact ⟨rfl, rfl⟩
  | @set later repetition isInclusion exprs tail hbalanced hdecimal hlater ihlater =>
    cases hspells' with
    | nil =>
      rw [List.nil_append] at hequal
      subst hequal
      simp [Stops] at hrest'
    | group | component => simp at hequal
    | @set later' repetition' isInclusion' exprs' tail' hbalanced' hdecimal' hlater' =>
      obtain ⟨rfl, hmembers⟩ : isInclusion = isInclusion' ∧
          exprs.flatMap componentText ++ ']' :: (repetition.text ++ (tail ++ rest)) =
            exprs'.flatMap componentText ++ ']' :: (repetition'.text ++ (tail' ++ rest')) := by
        cases isInclusion <;> cases isInclusion'
        · simpa [negationText] using hequal
        · cases exprs' <;> simp [negationText, componentText] at hequal
        · cases exprs <;> simp [negationText, componentText] at hequal
        · simpa [negationText] using hequal
      obtain ⟨rfl, hbehind⟩ := set_unique hbalanced hbalanced' hmembers
      obtain ⟨rfl, htail⟩ := repetition_unique hdecimal hdecimal'
        (hlater.not_continues hrest.not_continues) (hlater'.not_continues hrest'.not_continues)
        hbehind
      obtain ⟨rfl, rfl⟩ := ihlater hlater' hrest hrest' htail
      exact ⟨rfl, rfl⟩

/-- A text is spelled by one list of items at most. -/
theorem Spells.unique {patterns' : List Pattern} (hspells : Spells patterns text)
    (hspells' : Spells patterns' text) : patterns = patterns' :=
  (hspells.unique_of_stops hspells' (.inl rfl) (.inl rfl) rfl).1

end Pattern

end NdnCxx
