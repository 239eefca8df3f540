import Mathlib.Data.List.Basic

/-!
# Patterns that capture parts of a text

A pattern is matched by backtracking: `parses` lists the ways to match it at the start of a text, in
the order in which they are tried, and a whole text is matched by the first way that leaves nothing.
`Matches` says which texts a pattern describes and what its groups capture. The search finds nothing
but matches, and it finds one whenever there is one.
-/

namespace NdnCxx.TextPattern

variable {Letter : Type*}

/-- A pattern over letters. A group number stands for one group of a pattern. -/
inductive Pattern (Letter : Type*)
  | empty
  | one (isIn : Letter → Bool)
  | many (isIn : Letter → Bool)
  | optional (pattern : Pattern Letter)
  | sequence (first second : Pattern Letter)
  | group (number : ℕ) (pattern : Pattern Letter)

abbrev Groups (Letter : Type*) := List (ℕ × List Letter)

/-- The text of a group, which is empty for a group that took no part. -/
def Groups.get (groups : Groups Letter) (number : ℕ) : List Letter :=
  (groups.lookup number).getD []

/-- One way to match a pattern at the start of a text. -/
structure Parse (Letter : Type*) where
  consumed : List Letter
  groups : Groups Letter
  rest : List Letter

namespace Pattern

/-- At least one letter of a class. -/
def some (isIn : Letter → Bool) : Pattern Letter := .sequence (.one isIn) (.many isIn)

/-- The patterns one behind the other. -/
def inOrder (patterns : List (Pattern Letter)) : Pattern Letter := patterns.foldr .sequence .empty

def literal [DecidableEq Letter] (text : List Letter) : Pattern Letter :=
  inOrder (text.map fun letter ↦ .one (· = letter))

/-- A pattern a fixed number of times. -/
def repeated (count : ℕ) (pattern : Pattern Letter) : Pattern Letter :=
  inOrder (List.replicate count pattern)

/-- The ways to take letters of a class from the start of a text, the longest first. -/
def greedy (isIn : Letter → Bool) : List Letter → List (List Letter × List Letter)
  | [] => [([], [])]
  | letter :: rest =>
      if isIn letter then
        (greedy isIn rest).map (fun taken ↦ (letter :: taken.1, taken.2)) ++ [([], letter :: rest)]
      else [([], letter :: rest)]

/-- The ways to match a pattern at the start of a text, in the order in which they are tried. -/
def parses : Pattern Letter → List Letter → List (Parse Letter)
  | .empty, text => [⟨[], [], text⟩]
  | .one _, [] => []
  | .one isIn, letter :: rest => if isIn letter then [⟨[letter], [], rest⟩] else []
  | .many isIn, text => (greedy isIn text).map fun taken ↦ ⟨taken.1, [], taken.2⟩
  | .optional pattern, text => parses pattern text ++ [⟨[], [], text⟩]
  | .sequence first second, text =>
      (parses first text).flatMap fun parse ↦ (parses second parse.rest).map fun next ↦
        ⟨parse.consumed ++ next.consumed, parse.groups ++ next.groups, next.rest⟩
  | .group number pattern, text =>
      (parses pattern text).map fun parse ↦
        { parse with groups := (number, parse.consumed) :: parse.groups }

def fullMatch (pattern : Pattern Letter) (text : List Letter) : Option (Groups Letter) :=
  ((parses pattern text).find? fun parse ↦ parse.rest.isEmpty).map (·.groups)

/-- The pattern describes the text, and its groups capture the given parts of it. -/
def Matches : Pattern Letter → List Letter → Groups Letter → Prop
  | .empty, text, groups => text = [] ∧ groups = []
  | .one isIn, text, groups => (∃ letter, isIn letter = true ∧ text = [letter]) ∧ groups = []
  | .many isIn, text, groups => (∀ letter ∈ text, isIn letter = true) ∧ groups = []
  | .optional pattern, text, groups => Matches pattern text groups ∨ text = [] ∧ groups = []
  | .sequence first second, text, groups => ∃ front back frontGroups backGroups,
      Matches first front frontGroups ∧ Matches second back backGroups ∧
        text = front ++ back ∧ groups = frontGroups ++ backGroups
  | .group number pattern, text, groups => ∃ inner,
      Matches pattern text inner ∧ groups = (number, text) :: inner

variable {isIn : Letter → Bool} {text : List Letter} {pattern : Pattern Letter}
    {groups : Groups Letter}

theorem nil_mem_greedy {rest : List Letter} : ([], rest) ∈ greedy isIn text ↔ rest = text := by
  cases text with
  | nil => simp [greedy]
  | cons letter text =>
    rw [greedy]
    split_ifs <;> simp

theorem cons_mem_greedy {letter first : Letter} {consumed rest : List Letter} :
    (first :: consumed, rest) ∈ greedy isIn (letter :: text) ↔
      first = letter ∧ isIn letter = true ∧ (consumed, rest) ∈ greedy isIn text := by
  rw [greedy]
  split_ifs with hletter
  · simp only [List.mem_append, List.mem_map, Prod.mk.injEq, List.cons.injEq, Prod.exists, hletter,
      true_and]
    constructor
    · rintro (⟨taken, remaining, htaken, ⟨rfl, rfl⟩, rfl⟩ | hlast)
      · exact ⟨rfl, htaken⟩
      · simp at hlast
    · rintro ⟨rfl, htaken⟩
      exact .inl ⟨consumed, rest, htaken, ⟨rfl, rfl⟩, rfl⟩
  · simp [hletter]

theorem mem_greedy {consumed rest : List Letter} :
    (consumed, rest) ∈ greedy isIn text ↔
      text = consumed ++ rest ∧ ∀ letter ∈ consumed, isIn letter = true := by
  induction consumed generalizing text with
  | nil =>
    rw [nil_mem_greedy, List.nil_append]
    exact ⟨fun hrest ↦ ⟨hrest.symm, by simp⟩, fun htext ↦ htext.1.symm⟩
  | cons first consumed ih =>
    cases text with
    | nil => simp [greedy]
    | cons letter text =>
      rw [cons_mem_greedy, ih, List.cons_append, List.cons.injEq, List.forall_mem_cons]
      constructor
      · rintro ⟨rfl, hletter, htext, hall⟩
        exact ⟨⟨rfl, htext⟩, hletter, hall⟩
      · rintro ⟨⟨rfl, htext⟩, hletter, hall⟩
        exact ⟨rfl, hletter, htext, hall⟩

/-- The search is sound and complete at the start of a text. -/
theorem mem_parses {parse : Parse Letter} :
    parse ∈ parses pattern text ↔
      text = parse.consumed ++ parse.rest ∧ Matches pattern parse.consumed parse.groups := by
  obtain ⟨consumed, groups, rest⟩ := parse
  induction pattern generalizing text consumed groups rest with
  | empty => simp only [parses, Matches, List.mem_singleton, Parse.mk.injEq]; grind
  | one isIn => cases text <;> simp only [parses, Matches] <;> grind
  | many isIn =>
    simp only [parses, Matches, List.mem_map, mem_greedy, Parse.mk.injEq, Prod.exists]
    grind
  | optional pattern ih =>
    simp only [parses, Matches, List.mem_append, ih, List.mem_singleton, Parse.mk.injEq]
    grind
  | sequence first second ihFirst ihSecond =>
    simp only [parses, Matches, List.mem_flatMap, List.mem_map, Parse.mk.injEq]
    constructor
    · rintro ⟨⟨front, frontGroups, between⟩, hfront, ⟨back, backGroups, _⟩, hback, rfl, rfl, rfl⟩
      obtain ⟨rfl, hfirst⟩ := (ihFirst _ _ _).mp hfront
      obtain ⟨rfl, hsecond⟩ := (ihSecond _ _ _).mp hback
      exact ⟨(List.append_assoc _ _ _).symm, front, back, _, _, hfirst, hsecond, rfl, rfl⟩
    · rintro ⟨rfl, front, back, frontGroups, backGroups, hfirst, hsecond, rfl, rfl⟩
      exact ⟨⟨front, frontGroups, back ++ rest⟩,
        (ihFirst _ _ _).mpr ⟨List.append_assoc _ _ _, hfirst⟩, ⟨back, backGroups, rest⟩,
        (ihSecond _ _ _).mpr ⟨rfl, hsecond⟩, rfl, rfl, rfl⟩
  | group number pattern ih =>
    simp only [parses, Matches, List.mem_map, Parse.mk.injEq]
    constructor
    · rintro ⟨⟨inner, innerGroups, _⟩, hinner, rfl, rfl, rfl⟩
      obtain ⟨htext, hmatches⟩ := (ih _ _ _).mp hinner
      exact ⟨htext, innerGroups, hmatches, rfl⟩
    · rintro ⟨htext, inner, hmatches, rfl⟩
      exact ⟨⟨consumed, inner, rest⟩, (ih _ _ _).mpr ⟨htext, hmatches⟩, rfl, rfl, rfl⟩

/-- What the search captures is a match. -/
theorem matches_of_fullMatch (hmatch : pattern.fullMatch text = Option.some groups) :
    pattern.Matches text groups := by
  obtain ⟨parse, hfind, rfl⟩ := Option.map_eq_some_iff.mp hmatch
  obtain ⟨htext, hmatches⟩ := mem_parses.mp (List.mem_of_find?_eq_some hfind)
  have hrest : parse.rest.isEmpty = true :=
    List.find?_some (p := fun parse : Parse Letter ↦ parse.rest.isEmpty) hfind
  rw [List.isEmpty_iff.mp hrest, List.append_nil] at htext
  rwa [htext]

/-- A text that the pattern describes is found. -/
theorem fullMatch_ne_none_of_matches (hmatches : pattern.Matches text groups) :
    pattern.fullMatch text ≠ none := by
  have hmem : (⟨text, groups, []⟩ : Parse Letter) ∈ parses pattern text :=
    mem_parses.mpr ⟨(List.append_nil _).symm, hmatches⟩
  rw [fullMatch, Ne, Option.map_eq_none_iff, List.find?_eq_none]
  exact fun hnone ↦ hnone _ hmem rfl

/-! ## Composed patterns -/

theorem matches_some :
    (Pattern.some isIn).Matches text groups ↔
      text ≠ [] ∧ (∀ letter ∈ text, isIn letter = true) ∧ groups = [] := by
  simp only [Pattern.some, Matches]
  constructor
  · rintro ⟨_, back, _, _, ⟨⟨letter, hletter, rfl⟩, rfl⟩, ⟨hback, rfl⟩, rfl, rfl⟩
    exact ⟨List.cons_ne_nil _ _, List.forall_mem_cons.mpr ⟨hletter, hback⟩, rfl⟩
  · rintro ⟨hne, hall, rfl⟩
    obtain ⟨letter, back, rfl⟩ := List.exists_cons_of_ne_nil hne
    obtain ⟨hletter, hback⟩ := List.forall_mem_cons.mp hall
    exact ⟨[letter], back, [], [], ⟨⟨letter, hletter, rfl⟩, rfl⟩, ⟨hback, rfl⟩, rfl, rfl⟩

theorem matches_inOrder_nil :
    (inOrder ([] : List (Pattern Letter))).Matches text groups ↔ text = [] ∧ groups = [] := Iff.rfl

theorem matches_inOrder_cons {patterns : List (Pattern Letter)} :
    (inOrder (pattern :: patterns)).Matches text groups ↔ ∃ front back frontGroups backGroups,
      pattern.Matches front frontGroups ∧ (inOrder patterns).Matches back backGroups ∧
        text = front ++ back ∧ groups = frontGroups ++ backGroups := Iff.rfl

theorem matches_literal [DecidableEq Letter] {letters : List Letter} :
    (literal letters).Matches text groups ↔ text = letters ∧ groups = [] := by
  induction letters generalizing text groups with
  | nil => exact matches_inOrder_nil
  | cons letter letters ih =>
    rw [literal, List.map_cons, matches_inOrder_cons]
    constructor
    · rintro ⟨_, back, _, _, ⟨⟨found, hfound, rfl⟩, rfl⟩, hback, rfl, rfl⟩
      obtain ⟨rfl, rfl⟩ := ih.mp hback
      exact ⟨by rw [of_decide_eq_true hfound]; rfl, rfl⟩
    · rintro ⟨rfl, rfl⟩
      exact ⟨[letter], letters, [], [], ⟨⟨letter, decide_eq_true rfl, rfl⟩, rfl⟩,
        ih.mpr ⟨rfl, rfl⟩, rfl, rfl⟩

/-- A pattern whose matches have only letters of a class and capture nothing, repeated. -/
theorem forall_mem_of_matches_repeated (hpattern : ∀ text groups, pattern.Matches text groups →
      (∀ letter ∈ text, isIn letter = true) ∧ groups = []) {count : ℕ}
    (hmatches : (repeated count pattern).Matches text groups) :
    (∀ letter ∈ text, isIn letter = true) ∧ groups = [] := by
  induction count generalizing text groups with
  | zero =>
    obtain ⟨rfl, rfl⟩ := matches_inOrder_nil.mp hmatches
    exact ⟨by simp, rfl⟩
  | succ count ih =>
    rw [repeated, List.replicate_succ, matches_inOrder_cons] at hmatches
    obtain ⟨front, back, frontGroups, backGroups, hfront, hback, rfl, rfl⟩ := hmatches
    obtain ⟨hfrontIn, rfl⟩ := hpattern _ _ hfront
    obtain ⟨hbackIn, rfl⟩ := ih hback
    refine ⟨fun letter hletter ↦ ?_, rfl⟩
    exact (List.mem_append.mp hletter).elim (hfrontIn letter) (hbackIn letter)

end Pattern

end NdnCxx.TextPattern
