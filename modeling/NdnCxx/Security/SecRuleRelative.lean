import NdnCxx.Regex.TopMatcher

/-!
# Relative rules

A `SecRuleRelative` expands the name of a packet and the name of its signer, each by a regular
expression, and compares the two results by its operator. A first test recognises equal names, and one
loop over the components serves all operators behind it. The first test looks at the values of the
components only, the loop also at their types.
-/

namespace NdnCxx

/-- The texts that `m_op` may have: `==`, `>` and `>=` -/
inductive SecRuleRelative.Operator
  | equal
  | greater
  | greaterEqual
  deriving DecidableEq, Repr

/-- `SecRuleRelative`, with its regular expressions compiled. -/
structure SecRuleRelative where
  op : SecRuleRelative.Operator
  dataExpand : List Char
  signerExpand : List Char
  dataNameRegex : RegexTopMatcher
  signerNameRegex : RegexTopMatcher

namespace SecRuleRelative

/-- What the two regular expressions keep of the names they have matched. -/
structure State where
  dataName : RegexTopMatcher.State
  signerName : RegexTopMatcher.State

/-- The loop of `SecRuleRelative::compare` and the test of the iterators behind it -/
def compareComponents : Name → Name → Bool
  | [], _ => false
  | _ :: _, [] => true
  | component :: rest, other :: others =>
      if component.compare other = .eq then compareComponents rest others else false

def compare (op : Operator) (dataName signerName : Name) : Bool :=
  if dataName.equals signerName && (op == .equal || op == .greaterEqual) then true
  else compareComponents dataName signerName

/-- `SecRuleRelative::satisfy` of two names; `none` is a match without enough depth for its calls. -/
def satisfy (library : RegexLibrary) (rule : SecRuleRelative) (calls : ℕ) (dataName signerName : Name)
    (state : State) : Option (Except Error Bool × State) := do
  let (isDataName, dataState) ← rule.dataNameRegex.matchName library calls dataName state.dataName
  let state := { state with dataName := dataState }
  if !isDataName then return (.ok false, state)
  match rule.dataNameRegex.expand dataState rule.dataExpand with
  | .error error => return (.error error, state)
  | .ok expandDataName =>
      let (isSignerName, signerState) ←
        rule.signerNameRegex.matchName library calls signerName state.signerName
      let state := { state with signerName := signerState }
      if !isSignerName then return (.ok false, state)
      match rule.signerNameRegex.expand signerState rule.signerExpand with
      | .error error => return (.error error, state)
      | .ok expandSignerName => return (.ok (compare rule.op expandDataName expandSignerName), state)

/-! ## The relations -/

/-- The first name has all components of the second, in order and from the start, and more. -/
def Extends (dataName signerName : Name) : Prop :=
  signerName <+: dataName ∧ signerName.length < dataName.length

/-- Longer names, as far as the components are looked at -/
def ExtendsBy {View : Type} (view : Component → View) (dataName signerName : Name) : Prop :=
  signerName.map view <+: dataName.map view ∧ signerName.length < dataName.length

/-- What an operator is meant to say of the expanded names. Two components are the same if the view
of them is: the components themselves, or their values, which are what `operator==` compares. -/
def Operator.Relates {View : Type} (view : Component → View) : Operator → Name → Name → Prop
  | .equal, dataName, signerName => dataName.map view = signerName.map view
  | .greater, dataName, signerName => ExtendsBy view dataName signerName
  | .greaterEqual, dataName, signerName => signerName.map view <+: dataName.map view

variable {dataName signerName : Name}

theorem extends_cons_iff {component other : Component} {rest others : Name} :
    Extends (component :: rest) (other :: others) ↔ component = other ∧ Extends rest others := by
  simp only [Extends, List.cons_prefix_cons, List.length_cons, Nat.add_lt_add_iff_right, eq_comm,
    and_assoc]

/-- The loop recognises longer names, whatever the operator is. -/
theorem compareComponents_iff :
    compareComponents dataName signerName = true ↔ Extends dataName signerName := by
  induction dataName generalizing signerName with
  | nil => simp [compareComponents, Extends]
  | cons component rest ih =>
    cases signerName with
    | nil => simp [compareComponents, Extends]
    | cons other others =>
      rw [extends_cons_iff, ← ih, compareComponents]
      split_ifs with hcompare
      · simp [Component.compare_eq_eq_iff.mp hcompare]
      · refine iff_of_false (by simp) fun hboth ↦ hcompare ?_
        exact Component.compare_eq_eq_iff.mpr hboth.1

variable {View : Type} {view : Component → View}

theorem isPrefix_iff_extendsBy :
    signerName.map view <+: dataName.map view ↔
      ExtendsBy view dataName signerName ∨ dataName.map view = signerName.map view := by
  constructor
  · intro hprefixed
    have hle := hprefixed.length_le
    rw [List.length_map, List.length_map] at hle
    rcases hle.lt_or_eq with hlt | heq
    · exact .inl ⟨hprefixed, hlt⟩
    · exact .inr (hprefixed.eq_of_length (by simpa using heq)).symm
  · rintro (hextends | hsame)
    · exact hextends.1
    · rw [hsame]

theorem extendsBy_id : ExtendsBy id dataName signerName ↔ Extends dataName signerName := by
  simp [ExtendsBy, Extends]

theorem extendsBy_of_extends (view : Component → View) (hextends : Extends dataName signerName) :
    ExtendsBy view dataName signerName :=
  ⟨hextends.1.map view, hextends.2⟩

theorem map_ne_of_extendsBy (hextends : ExtendsBy view dataName signerName) :
    dataName.map view ≠ signerName.map view := by
  intro hsame
  have hlength : dataName.length = signerName.length := by simpa using congrArg List.length hsame
  exact absurd hlength hextends.2.ne'

/-- The relation that the code decides -/
theorem compare_iff (op : Operator) :
    compare op dataName signerName = true ↔
      op ≠ .greater ∧ dataName.equals signerName = true ∨ Extends dataName signerName := by
  rw [← compareComponents_iff]
  cases hequals : dataName.equals signerName <;> cases op <;> simp [compare, hequals]

/-- With components that are the same if their types and values are, an operator says what it is
meant to say, except that `==` also holds of a longer name, and that `==` and `>=` hold of names that
differ in types only. -/
theorem compare_iff_relates_id_iff (op : Operator) :
    (compare op dataName signerName = true ↔ op.Relates id dataName signerName) ↔
      ¬(op = .equal ∧ Extends dataName signerName) ∧
        ¬(op ≠ .greater ∧ dataName.equals signerName = true ∧ dataName ≠ signerName) := by
  have hsame : dataName = signerName → dataName.equals signerName = true := by
    rintro rfl
    exact Name.equals_iff.mpr rfl
  have hnot : Extends dataName signerName → ¬dataName.equals signerName = true := by
    intro hextends hequals
    exact map_ne_of_extendsBy (extendsBy_of_extends Component.value hextends)
      (Name.equals_iff.mp hequals)
  have hne : Extends dataName signerName → dataName ≠ signerName :=
    fun hextends heq ↦ hnot hextends (hsame heq)
  rw [compare_iff]
  cases op with
  | equal =>
    simp only [Operator.Relates, List.map_id, reduceCtorEq, ne_eq, not_false_eq_true, true_and]
    tauto
  | greater =>
    simp only [Operator.Relates, extendsBy_id, reduceCtorEq, ne_eq, not_true_eq_false, false_and,
      false_or, not_false_eq_true, and_self]
  | greaterEqual =>
    have hprefix := @isPrefix_iff_extendsBy dataName signerName _ id
    simp only [extendsBy_id, List.map_id] at hprefix
    simp only [Operator.Relates, List.map_id, hprefix, reduceCtorEq, ne_eq, not_false_eq_true,
      true_and, false_and]
    tauto

/-- With components that are the same if their values are, an operator says what it is meant to say,
except that `==` also holds of a longer name, and that `>` and `>=` do not hold of one whose
components have other types. -/
theorem compare_iff_relates_value_iff (op : Operator) :
    (compare op dataName signerName = true ↔ op.Relates Component.value dataName signerName) ↔
      ¬(op = .equal ∧ Extends dataName signerName) ∧
        ¬(op ≠ .equal ∧ ExtendsBy Component.value dataName signerName ∧
          ¬Extends dataName signerName) := by
  have hblind := @extendsBy_of_extends dataName signerName _ Component.value
  have hnot : ExtendsBy Component.value dataName signerName →
      ¬dataName.map Component.value = signerName.map Component.value := map_ne_of_extendsBy
  rw [compare_iff, Name.equals_iff]
  cases op with
  | equal =>
    simp only [Operator.Relates, reduceCtorEq, ne_eq, not_false_eq_true, true_and, false_and,
      not_true_eq_false]
    tauto
  | greater =>
    simp only [Operator.Relates, reduceCtorEq, ne_eq, not_false_eq_true, true_and, false_and,
      not_true_eq_false, false_or]
    tauto
  | greaterEqual =>
    simp only [Operator.Relates, isPrefix_iff_extendsBy, reduceCtorEq, ne_eq, not_false_eq_true,
      true_and, false_and]
    tauto

/-! ## What a rule decides -/

/-- Both regular expressions match, and the names are expanded to these. -/
structure Expands (library : RegexLibrary) (rule : SecRuleRelative) (calls : ℕ)
    (dataName signerName : Name) (state after : State) (expandDataName expandSignerName : Name) :
    Prop where
  dataName_matches : rule.dataNameRegex.matchName library calls dataName state.dataName =
    some (true, after.dataName)
  dataName_expands : rule.dataNameRegex.expand after.dataName rule.dataExpand = .ok expandDataName
  signerName_matches : rule.signerNameRegex.matchName library calls signerName state.signerName =
    some (true, after.signerName)
  signerName_expands :
    rule.signerNameRegex.expand after.signerName rule.signerExpand = .ok expandSignerName

variable {library : RegexLibrary} {rule : SecRuleRelative} {calls : ℕ} {state after : State}
  {expandDataName expandSignerName : Name}

/-- A rule answers with the comparison of the expanded names. -/
theorem Expands.satisfy_eq
    (hexpands : rule.Expands library calls dataName signerName state after expandDataName
      expandSignerName) :
    rule.satisfy library calls dataName signerName state =
      some (.ok (compare rule.op expandDataName expandSignerName), after) := by
  simp [satisfy, hexpands.dataName_matches, hexpands.dataName_expands, hexpands.signerName_matches,
    hexpands.signerName_expands]

/-- A rule with the operator `==` accepts a signer whose expanded name is shorter, and names whose
components have the same values and other types are taken for equal, but not for prefixes. In all
other cases the answer is the relation of the expanded names. -/
theorem satisfy_iff_relates_iff
    (hexpands : rule.Expands library calls dataName signerName state after expandDataName
      expandSignerName) :
    ∃ answer, rule.satisfy library calls dataName signerName state = some (.ok answer, after) ∧
      ((answer = true ↔ rule.op.Relates id expandDataName expandSignerName) ↔
        ¬(rule.op = .equal ∧ Extends expandDataName expandSignerName) ∧
          ¬(rule.op ≠ .greater ∧ expandDataName.equals expandSignerName = true ∧
            expandDataName ≠ expandSignerName)) ∧
      ((answer = true ↔ rule.op.Relates Component.value expandDataName expandSignerName) ↔
        ¬(rule.op = .equal ∧ Extends expandDataName expandSignerName) ∧
          ¬(rule.op ≠ .equal ∧ ExtendsBy Component.value expandDataName expandSignerName ∧
            ¬Extends expandDataName expandSignerName)) :=
  ⟨_, hexpands.satisfy_eq, compare_iff_relates_id_iff rule.op, compare_iff_relates_value_iff rule.op⟩

def wholeNameMatcher : RegexTopMatcher where
  primary := [.backref 0 [.repetition (.componentSet true [⟨[], 1, 0⟩]) 0 RegexMatcher.maxRepetitions]]
  primarySize := 1
  secondary := none

def wholeNames (op : Operator) : SecRuleRelative :=
  { op := op, dataExpand := ['\\', '1'], signerExpand := ['\\', '1'],
    dataNameRegex := wholeNameMatcher, signerNameRegex := wholeNameMatcher }

example :
    RegexTopMatcher.compile .literal ['^', '(', '<', '>', '*', ')', '$'] = .ok wholeNameMatcher := rfl

/-- `/a` signs `/a/b`. -/
theorem satisfy_iff_relates_iff_greater :
    ∃ after answer, (wholeNames .greater).satisfy .literal 20 [.generic [97], .generic [98]]
        [.generic [97]] ⟨.initial, .initial⟩ = some (.ok answer, after) ∧
      (answer = true ↔ Extends [.generic [97], .generic [98]] [.generic [97]]) ∧
      (answer = true ↔
        ExtendsBy Component.value [.generic [97], .generic [98]] [.generic [97]]) := by
  have hexpands : ∃ after, (wholeNames .greater).Expands .literal 20 [.generic [97], .generic [98]]
      [.generic [97]] ⟨.initial, .initial⟩ after [.generic [97], .generic [98]] [.generic [97]] :=
    ⟨⟨_, _⟩, rfl, rfl, rfl, rfl⟩
  have hextends : Extends [.generic [97], .generic [98]] [.generic [97]] :=
    ⟨⟨_, rfl⟩, by decide⟩
  obtain ⟨after, hexpands⟩ := hexpands
  obtain ⟨answer, hanswer, hid, hvalue⟩ := satisfy_iff_relates_iff hexpands
  refine ⟨after, answer, hanswer, ?_, hvalue.mpr ⟨nofun, fun hother ↦ hother.2.2 hextends⟩⟩
  rw [hid.mpr ⟨nofun, fun hother ↦ hother.1 rfl⟩]
  exact extendsBy_id

/-- A digest, which has the value of a generic component -/
def digestComponent : Component := ⟨Tlv.implicitSha256DigestComponent, List.replicate 32 97⟩

def sameValue : Component := .generic (List.replicate 32 97)

/-- By a rule with the operator `==`, `/a` signs `/a/b` too. Names that differ in types only are taken
for equal, and are no prefixes of longer names. -/
theorem satisfy_equal_of_extends :
    (∃ after, (wholeNames .equal).Expands .literal 20 [.generic [97], .generic [98]] [.generic [97]]
        ⟨.initial, .initial⟩ after [.generic [97], .generic [98]] [.generic [97]] ∧
      (wholeNames .equal).satisfy .literal 20 [.generic [97], .generic [98]] [.generic [97]]
        ⟨.initial, .initial⟩ = some (.ok true, after) ∧
      ¬Operator.Relates id .equal [.generic [97], .generic [98]] [.generic [97]] ∧
      ¬Operator.Relates Component.value .equal [.generic [97], .generic [98]] [.generic [97]]) ∧
    (compare .equal [digestComponent] [sameValue] = true ∧
      ¬Operator.Relates id .equal [digestComponent] [sameValue]) ∧
    compare .greater [digestComponent, .generic [98]] [sameValue] = false ∧
      Operator.Relates Component.value .greater [digestComponent, .generic [98]] [sameValue] := by
  refine ⟨⟨⟨_, _⟩, ⟨rfl, rfl, rfl, rfl⟩, rfl, ?_, ?_⟩, ⟨by decide, ?_⟩, by decide, ⟨_, rfl⟩,
    by decide⟩ <;> simp only [Operator.Relates] <;> decide

end SecRuleRelative

end NdnCxx
