import NdnCxx.Name.FromUri

/-!
# The matchers of an NDN regular expression

`util/regex`: a pattern text is compiled into a tree of matchers, and a name is matched against the
tree by a backtracking search that tries lengths from the longest to the shortest. The results of
groups are kept in the matchers themselves, so they are a state that every attempt writes to.

A call of a matcher is modelled with a bound on the depth of the calls it may make; `none` is a
search that needs more. Text positions are natural numbers.
-/

namespace NdnCxx

/-- What a component expression is compiled into; its marks are the back references from
`firstBackref` on. -/
structure RegexComponentMatcher where
  expr : List Char
  firstBackref : ℕ
  markCount : ℕ
  deriving DecidableEq, Repr

/-- The parts outside the repository: `boost::regex`, and the order in which a `std::set` of
pointers is walked through. `markCount` is the construction of an expression, which may throw, and
`regexMatch` gives the texts of the marks if the expression matches the whole text. -/
structure RegexLibrary where
  markCount : List Char → Except Error ℕ
  regexMatch : List Char → List Char → Option (List (List Char))
  pointerOrder : List RegexComponentMatcher → List RegexComponentMatcher
  pointerOrder_perm : ∀ components, (pointerOrder components).Perm components

/-- What `boost::regex` does with `.*` and with texts that hold no special character. -/
def RegexLibrary.literal : RegexLibrary where
  markCount _ := .ok 0
  regexMatch expr text := if expr = ['.', '*'] ∨ expr = text then some [] else none
  pointerOrder components := components
  pointerOrder_perm _ := .refl _

/-- The matcher classes: `RegexPatternListMatcher`, `RegexRepeatMatcher`, `RegexBackrefMatcher`
with the pattern list inside it, and `RegexComponentSetMatcher`. -/
inductive RegexMatcher
  | patternList (matchers : List RegexMatcher)
  | repetition (matcher : RegexMatcher) (repeatMin repeatMax : ℕ)
  | backref (backrefNo : ℕ) (matchers : List RegexMatcher)
  | componentSet (isInclusion : Bool) (components : List RegexComponentMatcher)

namespace RegexMatcher

def error (what : List Char) : Error := ⟨.regex, String.ofList what⟩

/-! ## Compiling -/

/-- `RegexPatternListMatcher::extractSubPattern`, where `depth` is `lcount - rcount`; the result is
split behind the closing bracket. -/
def extractSubPattern (left right : Char) : ℕ → List Char → Except Error (List Char × List Char)
  | _, [] => .error ⟨.regex, "Parenthesis mismatch"⟩
  | depth, char :: chars =>
      let opened := if char = left then depth + 1 else depth
      let closed := if char = right then opened - 1 else opened
      if closed = 0 then .ok ([char], chars)
      else do
        let (sub, rest) ← extractSubPattern left right closed chars
        return (char :: sub, rest)

def extractBraces : List Char → Except Error (List Char × List Char)
  | [] => .error ⟨.regex, "Missing right brace bracket"⟩
  | char :: chars =>
      if char = '}' then .ok ([char], chars)
      else do
        let (sub, rest) ← extractBraces chars
        return (char :: sub, rest)

def extractRepetition : List Char → Except Error (List Char × List Char)
  | [] => .ok ([], [])
  | char :: chars =>
      if char = '+' ∨ char = '?' ∨ char = '*' then .ok ([char], chars)
      else if char = '{' then extractBraces (char :: chars)
      else .ok ([], char :: chars)

/-- The brackets that `RegexPatternListMatcher::extractPattern` knows -/
def extractOperand (char : Char) (chars : List Char) : Except Error (List Char × List Char) :=
  if char = '(' then extractSubPattern '(' ')' 1 chars
  else if char = '<' then extractSubPattern '<' '>' 1 chars
  else if char = '[' then extractSubPattern '[' ']' 1 chars
  else .error ⟨.regex, "Unexpected syntax"⟩

/-- The part of `RegexPatternListMatcher::extractPattern` that splits the text: the operand, the
repetition behind it, and the rest. -/
def extractPattern (char : Char) (chars : List Char) :
    Except Error (List Char × List Char × List Char) := do
  let (sub, afterOperand) ← extractOperand char chars
  let (repeatStruct, rest) ← extractRepetition afterOperand
  return (char :: sub, repeatStruct, rest)

def maxRepetitions : ℕ := 2 ^ 64 - 1

def decimal (digits : List Char) : ℕ :=
  digits.foldl (fun number digit ↦ number * 10 + (digit.toNat - 48)) 0

/-- `atoi` of decimal digits, converted to `size_t`: the number itself below 2^31, and else what is
left of the result of `strtol` in an `int`. -/
def atoi (digits : List Char) : ℕ :=
  let word := min (decimal digits) (2 ^ 63 - 1) % 2 ^ 32
  if word < 2 ^ 31 then word else 2 ^ 64 - 2 ^ 32 + word

/-- The expression `[0-9]+` -/
def isDigits (text : List Char) : Bool := !text.isEmpty && text.all Char.isDigit

/-- The branch of `RegexRepeatMatcher::parseRepetition` for a text in braces: the four expressions
are told apart by what stands before and behind the first comma. -/
def parseBraces (expr repeatStruct : List Char) : Except Error (ℕ × ℕ) :=
  let unrecognized : Except Error (ℕ × ℕ) := .error (error
    ("Error: RegexRepeatMatcher.ParseRepetition(): Unrecognized format ".toList ++ expr))
  if repeatStruct.head? = some '{' ∧ repeatStruct.getLast? = some '}' then
    let body := repeatStruct.tail.dropLast
    let low := body.takeWhile (· != ',')
    match body.dropWhile (· != ',') with
    | [] => if isDigits body then .ok (atoi body, atoi body) else unrecognized
    | _ :: high =>
        if isDigits low && isDigits high then .ok (atoi low, atoi high)
        else if low.isEmpty && isDigits high then .ok (0, atoi high)
        else if isDigits low && high.isEmpty then .ok (atoi low, maxRepetitions)
        else unrecognized
  else unrecognized

/-- `RegexRepeatMatcher::parseRepetition`. A single character is one of `?`, `+` and `*` here,
since `extractRepetition` finds no other. -/
def parseRepetition (expr repeatStruct : List Char) : Except Error (ℕ × ℕ) :=
  match repeatStruct with
  | [] => .ok (1, 1)
  | ['?'] => .ok (0, 1)
  | ['+'] => .ok (1, maxRepetitions)
  | ['*'] => .ok (0, maxRepetitions)
  | _ => do
      let (min, max) ← parseBraces expr repeatStruct
      if min > maxRepetitions ∨ max > maxRepetitions ∨ min > max then
        throw (error
          ("Error: RegexRepeatMatcher.ParseRepetition(): Wrong number ".toList ++ expr))
      else return (min, max)

/-- `RegexComponentSetMatcher::extractComponent`; the text ends in a null character, and one inside
it is taken for its end. -/
def extractComponent : ℕ → List Char → Except Error (List Char × List Char)
  | _, [] => .error ⟨.regex, "Error: square brackets mismatch"⟩
  | depth, char :: chars =>
      if char = Char.ofNat 0 then .error ⟨.regex, "Error: square brackets mismatch"⟩
      else
        let opened := if char = '<' then depth + 1 else depth
        let closed := if char = '>' then opened - 1 else opened
        if closed = 0 then .ok ([char], chars)
        else do
          let (sub, rest) ← extractComponent closed chars
          return (char :: sub, rest)

variable (library : RegexLibrary)

def compileComponent (expr : List Char) (backrefNo : ℕ) :
    Except Error (RegexComponentMatcher × ℕ) := do
  let markCount ← library.markCount expr
  return (⟨expr, backrefNo, markCount⟩, backrefNo + markCount)

def compileSingleComponent (expr : List Char) (backrefNo : ℕ) :
    Except Error (List RegexComponentMatcher × ℕ) := do
  let (sub, rest) ← extractComponent 1 expr.tail
  if rest ≠ [] then throw (error ("Component expr error ".toList ++ expr))
  else
    let (component, next) ← compileComponent library sub.dropLast backrefNo
    return ([component], next)

/-- The loop of `RegexComponentSetMatcher::compileMultipleComponents` over the text from `index` on,
which still holds the closing bracket. Each round takes at least one character. -/
def compileMultipleComponents (expr : List Char) :
    ℕ → List Char → ℕ → Except Error (List RegexComponentMatcher × ℕ)
  | _, [], _ => .error (error ("Not sufficient expr to parse ".toList ++ expr))
  | _, [_], backrefNo => .ok ([], backrefNo)
  | 0, _ :: _ :: _, _ => .error (error ("Component expr error ".toList ++ expr))
  | rounds + 1, char :: chars, backrefNo =>
      if char ≠ '<' then .error (error ("Component expr error ".toList ++ expr))
      else do
        let (sub, rest) ← extractComponent 1 chars
        let (component, next) ← compileComponent library sub.dropLast backrefNo
        let (components, last) ← compileMultipleComponents expr rounds rest next
        return (component :: components, last)

def unparsedError (expr : List Char) : Error :=
  error ("Regexp compile error (cannot parse ".toList ++ expr ++ [')'])

def unmatchedError (expr : List Char) : Error :=
  error ("Regexp compile error (no matching ']' in ".toList ++ expr ++ [')'])

def compileComponentSet (expr : List Char) (backrefNo : ℕ) : Except Error (RegexMatcher × ℕ) :=
  if expr.length < 2 then .error (unparsedError expr)
  else
    match expr with
    | '<' :: _ => do
        let (components, next) ← compileSingleComponent library expr backrefNo
        return (componentSet true (library.pointerOrder components), next)
    | '[' :: chars =>
        if expr.getLast? ≠ some ']' then .error (unmatchedError expr)
        else do
          let isInclusion := chars.head? != some '^'
          let members := if isInclusion then chars else chars.tail
          let (components, next) ←
            compileMultipleComponents library expr members.length members backrefNo
          return (componentSet isInclusion (library.pointerOrder components), next)
    | _ => .error (unparsedError expr)

/-- The text between the parentheses in `RegexBackrefMatcher::compile` -/
def groupContents (expr : List Char) : Except Error (List Char) :=
  if expr.length < 2 then .error (error ("Unrecognized format: ".toList ++ expr))
  else if expr.head? = some '(' ∧ expr.getLast? = some ')' then .ok expr.tail.dropLast
  else .error (error ("Unrecognized format: ".toList ++ expr))

def wrapGroup (expr repeatStruct : List Char) (group : RegexMatcher) : Except Error RegexMatcher :=
  if repeatStruct = [] then .ok group
  else do
    let (repeatMin, repeatMax) ← parseRepetition expr repeatStruct
    return repetition group repeatMin repeatMax

/-- `RegexPatternListMatcher::compile` with the matchers it builds. A group takes its number before
the groups inside it. Both texts compiled further are shorter, so the number of characters bounds
the depth. -/
def compilePatternList : ℕ → List Char → ℕ → Except Error (List RegexMatcher × ℕ)
  | _, [], backrefNo => .ok ([], backrefNo)
  | 0, _ :: _, _ => .error ⟨.regex, "Compile error"⟩
  | depth + 1, char :: chars, backrefNo => do
      let (operand, repeatStruct, rest) ← extractPattern char chars
      if char = '(' then
        let contents ← groupContents operand
        let (inner, next) ← compilePatternList depth contents (backrefNo + 1)
        let matcher ← wrapGroup (operand ++ repeatStruct) repeatStruct (backref backrefNo inner)
        let (matchers, last) ← compilePatternList depth rest next
        return (matcher :: matchers, last)
      else
        let (set, next) ← compileComponentSet library operand backrefNo
        let (repeatMin, repeatMax) ← parseRepetition (operand ++ repeatStruct) repeatStruct
        let (matchers, last) ← compilePatternList depth rest next
        return (repetition set repeatMin repeatMax :: matchers, last)

/-! ## Matching -/

abbrev Backrefs := ℕ → List Component

def slice (name : Name) (offset len : ℕ) : List Component := (name.drop offset).take len

/-- `resetMatchResult` and `setMatchResult` of the pseudo matchers of a component expression -/
def setMarks (component : RegexComponentMatcher) (marks : List (List Char)) (refs : Backrefs) :
    Backrefs := fun backrefNo ↦
  if component.firstBackref ≤ backrefNo ∧
      backrefNo < component.firstBackref + component.markCount then
    [Component.generic (bytesOf (marks.getD (backrefNo - component.firstBackref) []))]
  else refs backrefNo

/-- `RegexComponentMatcher::match`; an empty expression stands for any component. -/
def matchComponent (component : RegexComponentMatcher) (target : Component) (refs : Backrefs) :
    Bool × Backrefs :=
  if component.expr.isEmpty then (true, refs)
  else
    match library.regexMatch component.expr target.toUri with
    | some marks => (true, setMarks component marks refs)
    | none => (false, refs)

/-- The loop of `RegexComponentSetMatcher::match` over the component expressions -/
def matchComponents (target : Component) :
    List RegexComponentMatcher → Backrefs → Bool × Backrefs
  | [], refs => (false, refs)
  | component :: components, refs =>
      match matchComponent library component target refs with
      | (true, refs) => (true, refs)
      | (false, refs) => matchComponents target components refs

def matchComponentSet (isInclusion : Bool) (components : List RegexComponentMatcher) (name : Name)
    (offset len : ℕ) (refs : Backrefs) : Bool × Backrefs :=
  if len ≠ 1 then (false, refs)
  else
    let (isMatched, refs) :=
      matchComponents library (name.getD offset Component.empty) components refs
    (if isInclusion then isMatched else !isMatched, refs)

abbrev Outcome := Option (Bool × Backrefs)

/-- The loop of both `recursiveMatch` functions: attempts with fewer and fewer components, until
one succeeds. -/
def tryLengths (attempt : ℕ → Backrefs → Outcome) : ℕ → Backrefs → Outcome
  | 0, refs => attempt 0 refs
  | tried + 1, refs => do
      let (isMatched, refs) ← attempt (tried + 1) refs
      if isMatched then return (true, refs) else tryLengths attempt tried refs

/-- One condition of a loop: the matcher, and then the rest of the search. -/
def andThen (first second : Backrefs → Outcome) (refs : Backrefs) : Outcome := do
  let (isMatched, refs) ← first refs
  if isMatched then second refs else return (false, refs)

mutual

def matchAt (name : Name) : ℕ → RegexMatcher → ℕ → ℕ → Backrefs → Outcome
  | 0, _, _, _, _ => none
  | calls + 1, .patternList matchers, offset, len, refs =>
      recursiveMatch name calls matchers offset len refs
  | calls + 1, .backref backrefNo matchers, offset, len, refs => do
      let refs := Function.update refs backrefNo []
      let (isMatched, refs) ← recursiveMatch name calls [.patternList matchers] offset len refs
      if isMatched then return (true, Function.update refs backrefNo (slice name offset len))
      else return (false, refs)
  | calls + 1, .repetition matcher repeatMin repeatMax, offset, len, refs =>
      -- nothing below this matcher is reset when it matches without an iteration
      if repeatMin = 0 ∧ len = 0 then some (true, refs)
      else repeatMatch name calls matcher repeatMin repeatMax 0 offset len refs
  | _ + 1, .componentSet isInclusion components, offset, len, refs =>
      some (matchComponentSet library isInclusion components name offset len refs)
termination_by structural calls => calls

/-- `RegexMatcher::recursiveMatch` over the matchers from `matcherNo` on -/
def recursiveMatch (name : Name) : ℕ → List RegexMatcher → ℕ → ℕ → Backrefs → Outcome
  | 0, _, _, _, _ => none
  | _ + 1, [], _, len, refs => some (len == 0, refs)
  | calls + 1, matcher :: matchers, offset, len, refs =>
      tryLengths (fun tried ↦ andThen (matchAt name calls matcher offset tried)
        (recursiveMatch name calls matchers (offset + tried) (len - tried))) len refs
termination_by structural calls => calls

def repeatMatch (name : Name) :
    ℕ → RegexMatcher → ℕ → ℕ → ℕ → ℕ → ℕ → Backrefs → Outcome
  | 0, _, _, _, _, _, _, _ => none
  | calls + 1, matcher, repeatMin, repeatMax, count, offset, len, refs =>
      if 0 < len ∧ count ≥ repeatMax then some (false, refs)
      else if len = 0 ∧ count < repeatMin then some (false, refs)
      else if len = 0 ∧ count ≥ repeatMin then some (true, refs)
      else
        tryLengths (fun tried ↦ andThen (matchAt name calls matcher offset tried)
          (repeatMatch name calls matcher repeatMin repeatMax (count + 1) (offset + tried)
            (len - tried))) len refs
termination_by structural calls => calls

end

end RegexMatcher

/-! ## The top matcher -/

/-- `RegexTopMatcher` with its two pattern lists and the number of back references of each. -/
structure RegexTopMatcher where
  primary : List RegexMatcher
  primarySize : ℕ
  secondary : Option (List RegexMatcher × ℕ)

namespace RegexTopMatcher

open RegexMatcher

variable (library : RegexLibrary)

def anyComponents : List Char := ['<', '.', '*', '>', '*']

/-- The `RegexPatternListMatcher` of a text, with a `RegexBackrefManager` of its own. -/
def compileText (expr : List Char) : Except Error (List RegexMatcher × ℕ) :=
  compilePatternList library expr.length expr 0

/-- `RegexTopMatcher::compile` of a text that is not empty -/
def compile (text : List Char) : Except Error RegexTopMatcher := do
  let expr := if text.getLast? ≠ some '$' then text ++ anyComponents else text.dropLast
  if expr.head? ≠ some '^' then
    let secondary ← compileText library (anyComponents ++ expr)
    let (primary, primarySize) ← compileText library expr
    return ⟨primary, primarySize, some secondary⟩
  else
    let (primary, primarySize) ← compileText library expr.tail
    return ⟨primary, primarySize, none⟩

/-- What a match leaves behind: the results in both back-reference managers, `m_matchResult` and
`m_isSecondaryUsed`. -/
structure State where
  primaryRefs : Backrefs
  secondaryRefs : Backrefs
  matchResult : Name
  isSecondaryUsed : Bool

def State.initial : State :=
  { primaryRefs := fun _ ↦ [], secondaryRefs := fun _ ↦ [], matchResult := [],
    isSecondaryUsed := false }

def matchName (top : RegexTopMatcher) (calls : ℕ) (name : Name) (state : State) :
    Option (Bool × State) := do
  let (isMatched, primaryRefs) ←
    matchAt library name calls (.patternList top.primary) 0 name.length state.primaryRefs
  let state :=
    { state with primaryRefs := primaryRefs, matchResult := [], isSecondaryUsed := false }
  if isMatched then return (true, { state with matchResult := slice name 0 name.length })
  else
    match top.secondary with
    | none => return (false, state)
    | some (matchers, _) =>
        let (isMatched, secondaryRefs) ←
          matchAt library name calls (.patternList matchers) 0 name.length state.secondaryRefs
        let state := { state with secondaryRefs := secondaryRefs }
        if isMatched then
          return (true, { state with
            matchResult := slice name 0 name.length, isSecondaryUsed := true })
        else return (false, state)

/-! ## Expanding -/

/-- An item of an expand string. -/
inductive ExpandItem
  | literal (text : List Char)
  | backref (digits : List Char)
  deriving DecidableEq, Repr

def wrongFormat : Error := ⟨.regex, "wrong format of expand string!"⟩

/-- The loop of `getItemFromExpand` behind a left angle bracket, where `depth` is `left - right`.
The end of the string is an error even when the last character closes the item. -/
def extractLiteral : ℕ → List Char → Except Error (List Char × List Char)
  | _, [] => .error wrongFormat
  | depth, char :: chars =>
      let opened := if char = '<' then depth + 1 else depth
      let closed := if char = '>' then opened - 1 else opened
      if chars.isEmpty then .error wrongFormat
      else if closed = 0 then .ok ([char], chars)
      else do
        let (sub, rest) ← extractLiteral closed chars
        return (char :: sub, rest)

def getItemFromExpand : List Char → Except Error (ExpandItem × List Char)
  | '\\' :: chars =>
      let digits := chars.takeWhile Char.isDigit
      if digits.isEmpty then .error wrongFormat
      else .ok (.backref digits, chars.dropWhile Char.isDigit)
  | '<' :: chars => do
      let (sub, rest) ← extractLiteral 1 chars
      return (.literal sub.dropLast, rest)
  | _ => .error wrongFormat

/-- The components that an item appends. `boost::lexical_cast` throws beyond 64 bits. -/
def expandItem (matchResult : Name) (refs : Backrefs) (backrefNo : ℕ) :
    ExpandItem → Except Error Name
  | .literal text => Name.fromUri text
  | .backref digits =>
      let index := decimal digits
      if index ≥ 2 ^ 64 then
        .error ⟨.regex,
          "bad lexical cast: source type value could not be interpreted as target"⟩
      else if index = 0 then .ok matchResult
      else if index ≤ backrefNo then .ok (refs (index - 1))
      else .error ⟨.regex, "Exceed the range of back reference"⟩

/-- The loop of `expand`. Every item takes at least one character. -/
def expandLoop (matchResult : Name) (refs : Backrefs) (backrefNo : ℕ) :
    ℕ → List Char → Except Error Name
  | _, [] => .ok []
  | 0, _ :: _ => .error wrongFormat
  | rounds + 1, chars => do
      let (item, rest) ← getItemFromExpand chars
      let appended ← expandItem matchResult refs backrefNo item
      return appended ++ (← expandLoop matchResult refs backrefNo rounds rest)

/-- The back references that `expand` looks at. -/
def usedRefs (state : State) : Backrefs :=
  if state.isSecondaryUsed then state.secondaryRefs else state.primaryRefs

def usedSize (top : RegexTopMatcher) (state : State) : ℕ :=
  if state.isSecondaryUsed then (top.secondary.map Prod.snd).getD 0 else top.primarySize

/-- `RegexTopMatcher::expand` of the string in use, the argument or else `m_expand` -/
def expand (top : RegexTopMatcher) (state : State) (expandStr : List Char) : Except Error Name :=
  expandLoop state.matchResult (usedRefs state) (top.usedSize state) expandStr.length expandStr

end RegexTopMatcher

end NdnCxx
