import NdnCxx.Regex.Matcher
import Mathlib.Computability.Language

/-!
# Patterns and the languages they denote

What a pattern text means, apart from how it is compiled: the grammar relates a text to its
syntax tree, and a tree denotes a set of component sequences. A text has at most one tree. A
component expression ends at the angle bracket that closes it, counting the brackets inside it.
-/

namespace NdnCxx

namespace Pattern

/-! ## Syntax -/

/-- How often an operand is repeated, with the counts as they are written. -/
inductive Repetition
  | once
  | zeroOrOne
  | oneOrMore
  | zeroOrMore
  | exactly (count : List Char)
  | atLeast (low : List Char)
  | atMost (high : List Char)
  | between (low high : List Char)
  deriving DecidableEq, Repr

namespace Repetition

def text : Repetition → List Char
  | once => []
  | zeroOrOne => ['?']
  | oneOrMore => ['+']
  | zeroOrMore => ['*']
  | exactly count => '{' :: (count ++ ['}'])
  | atLeast low => '{' :: (low ++ [',', '}'])
  | atMost high => '{' :: ',' :: (high ++ ['}'])
  | between low high => '{' :: (low ++ ',' :: (high ++ ['}']))

def counts : Repetition → List (List Char)
  | exactly count => [count]
  | atLeast low => [low]
  | atMost high => [high]
  | between low high => [low, high]
  | _ => []

def least : Repetition → ℕ
  | once | oneOrMore => 1
  | zeroOrOne | zeroOrMore | atMost _ => 0
  | exactly low | atLeast low | between low _ => RegexMatcher.decimal low

def greatest : Repetition → Option ℕ
  | once | zeroOrOne => some 1
  | oneOrMore | zeroOrMore | atLeast _ => none
  | exactly high | atMost high | between _ high => some (RegexMatcher.decimal high)

def IsDecimal (repetition : Repetition) : Prop :=
  ∀ count ∈ repetition.counts, RegexMatcher.isDigits count = true

end Repetition

end Pattern

/-- One item of a pattern: a group, a component, or a set of components. -/
inductive Pattern
  | group (patterns : List Pattern) (repetition : Pattern.Repetition)
  | component (expr : List Char) (repetition : Pattern.Repetition)
  | set (isInclusion : Bool) (exprs : List (List Char)) (repetition : Pattern.Repetition)

namespace Pattern

/-- Every angle bracket opened inside a component expression is closed inside it, and none is
closed that was not opened. -/
def Balanced (expr : List Char) : Prop :=
  expr.count '>' = expr.count '<' ∧
    ∀ start, start <+: expr → start.count '>' ≤ start.count '<'

def componentText (expr : List Char) : List Char := '<' :: (expr ++ ['>'])

/-- The mark of a negated set. -/
def negationText (isInclusion : Bool) : List Char := if isInclusion then [] else ['^']

/-- The grammar: a list of items spells a text. -/
inductive Spells : List Pattern → List Char → Prop
  | nil : Spells [] []
  | group {patterns later : List Pattern} {repetition : Repetition} {text rest : List Char} :
      Spells patterns text → repetition.IsDecimal → Spells later rest →
        Spells (.group patterns repetition :: later)
          ('(' :: (text ++ ')' :: (repetition.text ++ rest)))
  | component {later : List Pattern} {repetition : Repetition} {expr rest : List Char} :
      Balanced expr → repetition.IsDecimal → Spells later rest →
        Spells (.component expr repetition :: later)
          ('<' :: (expr ++ '>' :: (repetition.text ++ rest)))
  | set {later : List Pattern} {repetition : Repetition} {isInclusion : Bool}
      {exprs : List (List Char)} {rest : List Char} :
      (∀ expr ∈ exprs, Balanced expr) → repetition.IsDecimal → Spells later rest →
        Spells (.set isInclusion exprs repetition :: later)
          ('[' :: (negationText isInclusion ++
            (exprs.flatMap componentText ++ ']' :: (repetition.text ++ rest))))

/-! ## Languages -/

section Denotation

variable (library : RegexLibrary)

/-- A component expression accepts a component by its URI text; an empty one accepts all. -/
def Accepts (expr : List Char) (target : Component) : Prop :=
  expr = [] ∨ (library.regexMatch expr target.toUri).isSome = true

/-- The components of a set, or those outside it. -/
def InSet (isInclusion : Bool) (exprs : List (List Char)) (target : Component) : Prop :=
  if isInclusion then ∃ expr ∈ exprs, Accepts library expr target
  else ¬ ∃ expr ∈ exprs, Accepts library expr target

def single (accepted : Component → Prop) : Language Component :=
  {word | ∃ target, word = [target] ∧ accepted target}

/-- A language repeated as often as allowed. -/
def Repetition.language (repetition : Repetition) (operand : Language Component) :
    Language Component :=
  {word | ∃ iterations, repetition.least ≤ iterations ∧
    (∀ greatest ∈ repetition.greatest, iterations ≤ greatest) ∧ word ∈ operand ^ iterations}

mutual

def language : Pattern → Language Component
  | .group patterns repetition => repetition.language (listLanguage patterns)
  | .component expr repetition => repetition.language (single (Accepts library expr))
  | .set isInclusion exprs repetition =>
      repetition.language (single (InSet library isInclusion exprs))

/-- The component sequences that a list of items denotes: concatenations. -/
def listLanguage : List Pattern → Language Component
  | [] => 1
  | pattern :: later => language pattern * listLanguage later

end

/-- No operand of a repetition matches the empty sequence. Components and sets never do. -/
inductive RepeatsNonempty : List Pattern → Prop
  | nil : RepeatsNonempty []
  | group {patterns later : List Pattern} {repetition : Repetition} :
      RepeatsNonempty patterns → (repetition ≠ .once → [] ∉ listLanguage library patterns) →
        RepeatsNonempty later → RepeatsNonempty (.group patterns repetition :: later)
  | component {later : List Pattern} {repetition : Repetition} {expr : List Char} :
      RepeatsNonempty later → RepeatsNonempty (.component expr repetition :: later)
  | set {later : List Pattern} {repetition : Repetition} {isInclusion : Bool}
      {exprs : List (List Char)} :
      RepeatsNonempty later → RepeatsNonempty (.set isInclusion exprs repetition :: later)

end Denotation

/-- All repetition counts are below the bound. -/
inductive CountsBelow (bound : ℕ) : List Pattern → Prop
  | nil : CountsBelow bound []
  | group {patterns later : List Pattern} {repetition : Repetition} :
      CountsBelow bound patterns →
        (∀ count ∈ repetition.counts, RegexMatcher.decimal count < bound) →
          CountsBelow bound later → CountsBelow bound (.group patterns repetition :: later)
  | component {later : List Pattern} {repetition : Repetition} {expr : List Char} :
      (∀ count ∈ repetition.counts, RegexMatcher.decimal count < bound) →
        CountsBelow bound later → CountsBelow bound (.component expr repetition :: later)
  | set {later : List Pattern} {repetition : Repetition} {isInclusion : Bool}
      {exprs : List (List Char)} :
      (∀ count ∈ repetition.counts, RegexMatcher.decimal count < bound) →
        CountsBelow bound later → CountsBelow bound (.set isInclusion exprs repetition :: later)

end Pattern

/-- A whole pattern with its anchors. -/
structure TopPattern where
  isStartAnchored : Bool
  patterns : List Pattern
  isEndAnchored : Bool

namespace TopPattern

def Spells (pattern : TopPattern) (text : List Char) : Prop :=
  ∃ body, Pattern.Spells pattern.patterns body ∧
    text = (if pattern.isStartAnchored then ['^'] else []) ++
      (body ++ if pattern.isEndAnchored then ['$'] else [])

/-- What may stand outside the items: nothing at an anchor, else any components. -/
def outside (isAnchored : Bool) : Language Component := if isAnchored then 1 else ⊤

/-- The names that a pattern denotes. -/
def language (library : RegexLibrary) (pattern : TopPattern) : Language Component :=
  outside pattern.isStartAnchored *
    (Pattern.listLanguage library pattern.patterns * outside pattern.isEndAnchored)

end TopPattern

end NdnCxx
