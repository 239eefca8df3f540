import NdnCxx.Regex.Captures
import NdnCxx.Security.Conf

/-!
# Hierarchical checkers

A `HierarchicalChecker` lets a key sign the names below its identity. It is a
`HyperKeyLocatorNameChecker`, here with the matchers of its two regular expressions and with what they
keep from one check to the next. Which component an expression accepts is decided by the library of
regular expressions.
-/

namespace NdnCxx

/-- `HyperKeyLocatorNameChecker`, with its regular expressions compiled -/
structure HyperKeyLocatorNameChecker where
  hyperPRegex : RegexTopMatcher
  pExpand : List Char
  hyperKRegex : RegexTopMatcher
  kExpand : List Char
  hyperRelation : Relation

namespace HyperKeyLocatorNameChecker

/-- What the two regular expressions keep of the names they have matched. -/
structure State where
  hyperPRegex : RegexTopMatcher.State
  hyperKRegex : RegexTopMatcher.State

variable (library : RegexLibrary)

/-- The constructor, which compiles both expressions -/
def create (pExpr pExpand kExpr kExpand : List Char) (hyperRelation : Relation) :
    Except Error HyperKeyLocatorNameChecker := do
  let hyperPRegex ← RegexTopMatcher.compile library pExpr
  let hyperKRegex ← RegexTopMatcher.compile library kExpr
  return ⟨hyperPRegex, pExpand, hyperKRegex, kExpand, hyperRelation⟩

/-- How `check` ends: `none` is success, `some failInfo` is failure. Only `KeyLocator::Error` is
caught. -/
def conclude : Except Error Bool → Except Error (Option String)
  | .ok true => .ok none
  | .ok false => .ok (some "KeyLocatorChecker failed!")
  | .error error =>
      if error.kind = .keyLocator then .ok (some "KeyLocator does not have name") else .error error

/-- `HyperKeyLocatorNameChecker::check`; the outer `none` is a match without enough depth for its
calls. -/
def checkName (checker : HyperKeyLocatorNameChecker) (calls : ℕ) (packetName : Name)
    (keyLocator : KeyLocator) (state : State) :
    Option (Except Error (Option String) × State) := do
  let (isPacketName, hyperPRegex) ←
    checker.hyperPRegex.matchName library calls packetName state.hyperPRegex
  let state := { state with hyperPRegex := hyperPRegex }
  if !isPacketName then return (conclude (.ok false), state)
  match keyLocator.getName with
  | .error error => return (conclude (.error error), state)
  | .ok keyName =>
      let (isKeyName, hyperKRegex) ←
        checker.hyperKRegex.matchName library calls keyName state.hyperKRegex
      let state := { state with hyperKRegex := hyperKRegex }
      if !isKeyName then return (conclude (.ok false), state)
      let related : Except Error Bool := do
        return KeyLocatorChecker.checkRelation checker.hyperRelation
          (← checker.hyperKRegex.expand hyperKRegex checker.kExpand)
          (← checker.hyperPRegex.expand hyperPRegex checker.pExpand)
      return (conclude related, state)

section CheckName

variable {library} {checker : HyperKeyLocatorNameChecker} {calls : ℕ} {packetName keyName : Name}
  {wire : Bytes} {state : State} {pAfter kAfter : RegexTopMatcher.State}

theorem checkName_of_not_matches
    (hpMatch : checker.hyperPRegex.matchName library calls packetName state.hyperPRegex =
      some (true, pAfter))
    (hkMatch : checker.hyperKRegex.matchName library calls keyName state.hyperKRegex =
      some (false, kAfter)) :
    checker.checkName library calls packetName ⟨.name keyName, wire⟩ state =
      some (.ok (some "KeyLocatorChecker failed!"), ⟨pAfter, kAfter⟩) := by
  simp [checkName, hpMatch, hkMatch, KeyLocator.getName, conclude]

theorem checkName_of_matches {expandedPacketName expandedKeyName : Name}
    (hpMatch : checker.hyperPRegex.matchName library calls packetName state.hyperPRegex =
      some (true, pAfter))
    (hpExpand : checker.hyperPRegex.expand pAfter checker.pExpand = .ok expandedPacketName)
    (hkMatch : checker.hyperKRegex.matchName library calls keyName state.hyperKRegex =
      some (true, kAfter))
    (hkExpand : checker.hyperKRegex.expand kAfter checker.kExpand = .ok expandedKeyName) :
    checker.checkName library calls packetName ⟨.name keyName, wire⟩ state =
      some (conclude (.ok (KeyLocatorChecker.checkRelation checker.hyperRelation expandedKeyName
        expandedPacketName)), ⟨pAfter, kAfter⟩) := by
  simp [checkName, hpMatch, hkMatch, hpExpand, hkExpand, KeyLocator.getName, bind, Except.bind, pure,
    Except.pure]

end CheckName

/-- The name of a packet, without the signed-Interest components of an Interest, which must have
them. -/
def signedName : Packet → Option Name
  | .data data => some data.name
  | .interest interest =>
      if interest.name.length < SignedInterest.minLength then none
      else some (interest.name.getPrefix (-SignedInterest.minLength))

def check (checker : HyperKeyLocatorNameChecker) (calls : ℕ) (packet : Packet)
    (keyLocator : KeyLocator) (state : State) : Option (Except Error (Option String) × State) :=
  match signedName packet with
  | none => some (.ok (some "No Signature"), state)
  | some packetName => checker.checkName library calls packetName keyLocator state

end HyperKeyLocatorNameChecker

namespace HierarchicalChecker

open Pattern RegexTopMatcher HyperKeyLocatorNameChecker

def pExpr : List Char := ['^', '(', '<', '>', '*', ')', '$']

def pExpand : List Char := ['\\', '1']

/-- The text of the component `KEY` -/
def key : List Char := ['K', 'E', 'Y']

def idCert : List Char := ['I', 'D', '-', 'C', 'E', 'R', 'T']

def ksk : List Char := ['k', 's', 'k', '-']

def kExpr : List Char :=
  ['^', '(', '[', '^', '<'] ++ key ++ ['>', ']', '*', ')', '<'] ++ key ++
    ['>', '(', '<', '>', '*', ')', '<'] ++ ksk ++ ['.', '*', '>', '<'] ++ idCert ++ ['>', '$']

def kExpand : List Char := ['\\', '1', '\\', '2']

example : String.ofList kExpr = "^([^<KEY>]*)<KEY>(<>*)<ksk-.*><ID-CERT>$" := by decide

/-- The key-locator checker that the constructor of `HierarchicalChecker` makes -/
def create (library : RegexLibrary) : Except Error HyperKeyLocatorNameChecker :=
  HyperKeyLocatorNameChecker.create library pExpr pExpand kExpr kExpand .isPrefixOf

/-- The library knows no marks in the expressions for single components, and decides them by the texts
of the components. -/
structure DecidesComponents (library : RegexLibrary) : Prop where
  markCount_eq : ∀ expr ∈ [[], key, ksk ++ ['.', '*'], idCert], library.markCount expr = .ok 0
  key_iff : ∀ text, (library.regexMatch key text).isSome = true ↔ text = key
  ksk_iff : ∀ text, (library.regexMatch (ksk ++ ['.', '*']) text).isSome = true ↔ ksk <+: text
  idCert_iff : ∀ text, (library.regexMatch idCert text).isSome = true ↔ text = idCert

/-- A key name with the components in front of `KEY`, of which none is `KEY`, and those between `KEY`
and the identifier of the key. -/
def SplitsAt (keyName front back : Name) : Prop :=
  (∀ component ∈ front, component.toUri ≠ key) ∧
    ∃ keyComponent keyId certificate,
      keyName = front ++ keyComponent :: (back ++ [keyId, certificate]) ∧
      keyComponent.toUri = key ∧ ksk <+: keyId.toUri ∧ certificate.toUri = idCert

/-- The key belongs to the identity of the packet name or to one above it. -/
def MaySign (keyName packetName : Name) : Prop :=
  ∃ front back, SplitsAt keyName front back ∧ (front ++ back).isPrefixOf packetName = true

/-! ## The two patterns -/

def pPatterns : List Pattern := [.group [.component [] .zeroOrMore] .once]

def kPatterns : List Pattern :=
  [.group [.set false [key] .zeroOrMore] .once, .component key .once,
    .group [.component [] .zeroOrMore] .once, .component (ksk ++ ['.', '*']) .once,
    .component idCert .once]

/-- What a component expression without marks is compiled into, with the repetition behind it. -/
def componentMatcher (library : RegexLibrary) (isInclusion : Bool) (expr : List Char)
    (backrefNo : ℕ) (repetition : Repetition) : RegexMatcher :=
  .repetition (.componentSet isInclusion (library.pointerOrder [⟨expr, backrefNo, 0⟩]))
    repetition.bounds.1 repetition.bounds.2

def pMatcher (library : RegexLibrary) : RegexTopMatcher where
  primary := [.backref 0 [componentMatcher library true [] 1 .zeroOrMore]]
  primarySize := 1
  secondary := none

def kMatcher (library : RegexLibrary) : RegexTopMatcher where
  primary := [.backref 0 [componentMatcher library false key 1 .zeroOrMore],
    componentMatcher library true key 1 .once,
    .backref 1 [componentMatcher library true [] 2 .zeroOrMore],
    componentMatcher library true (ksk ++ ['.', '*']) 2 .once,
    componentMatcher library true idCert 2 .once]
  primarySize := 2
  secondary := none

variable {library : RegexLibrary} {expr : List Char}

section Compile

open RegexMatcher hiding repetition

theorem compileComponent_eq (hmarks : library.markCount expr = .ok 0) (backrefNo : ℕ) :
    compileComponent library expr backrefNo = .ok (⟨expr, backrefNo, 0⟩, backrefNo) := by
  simp [compileComponent, hmarks, bind, Except.bind, pure, Except.pure]

theorem compile_pExpr (hlibrary : DecidesComponents library) :
    compile library pExpr = .ok (pMatcher library) := by
  have hempty := compileComponent_eq (hlibrary.markCount_eq [] (by simp))
  simp [pExpr, compile, compileText, compilePatternList, extractPattern, extractOperand,
    extractSubPattern, extractRepetition, groupContents, wrapGroup, compileComponentSet,
    compileSingleComponent, extractComponent, parseRepetition, hempty, bind, Except.bind, pure,
    Except.pure, pMatcher, componentMatcher, Repetition.bounds]

theorem compile_kExpr (hlibrary : DecidesComponents library) :
    compile library kExpr = .ok (kMatcher library) := by
  have hempty := compileComponent_eq (hlibrary.markCount_eq [] (by simp))
  have hkey := compileComponent_eq (hlibrary.markCount_eq key (by simp))
  have hksk := compileComponent_eq (hlibrary.markCount_eq (ksk ++ ['.', '*']) (by simp))
  have hidCert := compileComponent_eq (hlibrary.markCount_eq idCert (by simp))
  simp only [key, ksk, idCert, List.cons_append, List.nil_append] at hkey hksk hidCert
  simp [kExpr, key, ksk, idCert, compile, compileText, compilePatternList, extractPattern,
    extractOperand, extractSubPattern, extractRepetition, groupContents, wrapGroup,
    compileComponentSet, compileSingleComponent, compileMultipleComponents, extractComponent,
    parseRepetition, hempty, hkey, hksk, hidCert, bind, Except.bind, pure, Except.pure, kMatcher,
    componentMatcher, Repetition.bounds]

end Compile

theorem create_eq (hlibrary : DecidesComponents library) :
    create library = .ok ⟨pMatcher library, pExpand, kMatcher library, kExpand, .isPrefixOf⟩ := by
  simp only [create, HyperKeyLocatorNameChecker.create, compile_pExpr hlibrary,
    compile_kExpr hlibrary, bind, Except.bind, pure, Except.pure]

theorem compiledFrom_pPatterns (hlibrary : DecidesComponents library) :
    CompiledFrom library ⟨true, pPatterns, true⟩ (pMatcher library) where
  primary := .group (.component (.cons (hlibrary.markCount_eq [] (by simp)) .nil) .nil) .plain .nil
  secondary := rfl

theorem compiledFrom_kPatterns (hlibrary : DecidesComponents library) :
    CompiledFrom library ⟨true, kPatterns, true⟩ (kMatcher library) where
  primary :=
    .group (.set (.cons (hlibrary.markCount_eq key (by simp)) .nil) .nil) .plain <|
    .component (.cons (hlibrary.markCount_eq key (by simp)) .nil) <|
    .group (.component (.cons (hlibrary.markCount_eq [] (by simp)) .nil) .nil) .plain <|
    .component (.cons (hlibrary.markCount_eq (ksk ++ ['.', '*']) (by simp)) .nil) <|
    .component (.cons (hlibrary.markCount_eq idCert (by simp)) .nil) .nil
  secondary := rfl

/-! ## What the patterns find -/

variable {repetition : Repetition}

theorem isPlain_component (hmarks : library.markCount expr = .ok 0) :
    IsPlain library (.component expr repetition) := by
  rw [IsPlain, markCount, hmarks]

theorem isPlain_set {isInclusion : Bool} (hmarks : library.markCount expr = .ok 0) :
    IsPlain library (.set isInclusion [expr] repetition) := by
  intro other hother
  obtain rfl := List.mem_singleton.mp hother
  rw [markCount, hmarks]

theorem isFlat_pPatterns (hlibrary : DecidesComponents library) : IsFlat library pPatterns := by
  refine .group ?_ .nil
  intro pattern hpattern
  obtain rfl := List.mem_singleton.mp hpattern
  exact isPlain_component (hlibrary.markCount_eq [] (by simp))

theorem isFlat_kPatterns (hlibrary : DecidesComponents library) : IsFlat library kPatterns := by
  refine .group ?_ (.plain ?_ (.group ?_ (.plain ?_ (.plain ?_ .nil))))
  · intro pattern hpattern
    obtain rfl := List.mem_singleton.mp hpattern
    exact isPlain_set (hlibrary.markCount_eq key (by simp))
  · exact isPlain_component (hlibrary.markCount_eq key (by simp))
  · intro pattern hpattern
    obtain rfl := List.mem_singleton.mp hpattern
    exact isPlain_component (hlibrary.markCount_eq [] (by simp))
  · exact isPlain_component (hlibrary.markCount_eq (ksk ++ ['.', '*']) (by simp))
  · exact isPlain_component (hlibrary.markCount_eq idCert (by simp))

theorem repeatsNonempty_pPatterns : RepeatsNonempty library pPatterns :=
  .group (.component .nil) (fun hrepeated ↦ absurd rfl hrepeated) .nil

theorem repeatsNonempty_kPatterns : RepeatsNonempty library kPatterns :=
  .group (.set .nil) (fun hrepeated ↦ absurd rfl hrepeated) <|
  .component <| .group (.component .nil) (fun hrepeated ↦ absurd rfl hrepeated) <|
  .component <| .component .nil

theorem countsBelow_pPatterns : CountsBelow (2 ^ 31) pPatterns := by
  refine .group (.component ?_ .nil) ?_ .nil <;> simp [Repetition.counts]

theorem countsBelow_kPatterns : CountsBelow (2 ^ 31) kPatterns := by
  refine .group (.set ?_ .nil) ?_ (.component ?_ (.group (.component ?_ .nil) ?_
    (.component ?_ (.component ?_ .nil)))) <;> simp [Repetition.counts]

theorem mem_language_any (word : Name) :
    word ∈ language library (.group [.component [] .zeroOrMore] .once) := by
  rw [language, language_once, listLanguage, listLanguage, mul_one, language,
    mem_zeroOrMore_single_iff]
  exact fun component _ ↦ .inl rfl

theorem accepts_key_iff (hlibrary : DecidesComponents library) {component : Component} :
    Accepts library key component ↔ component.toUri = key := by
  rw [Accepts, hlibrary.key_iff]
  exact or_iff_right (by simp [key])

theorem mem_language_notKey_iff (hlibrary : DecidesComponents library) {word : Name} :
    word ∈ language library (.group [.set false [key] .zeroOrMore] .once) ↔
      ∀ component ∈ word, component.toUri ≠ key := by
  rw [language, language_once, listLanguage, listLanguage, mul_one, language,
    mem_zeroOrMore_single_iff]
  simp [InSet, accepts_key_iff hlibrary]

theorem mem_language_component_iff {word : Name} :
    word ∈ language library (.component expr .once) ↔
      ∃ component, word = [component] ∧ Accepts library expr component := by
  rw [language, language_once]
  rfl

/-- The words of the five items are the parts of a key name. -/
theorem splitsAt_of_words (hlibrary : DecidesComponents library) {words : List Name}
    (hwords : List.Forall₂ (fun pattern word ↦ word ∈ language library pattern) kPatterns words) :
    ∃ front back, SplitsAt words.flatten front back ∧ groupWords kPatterns words = [front, back] := by
  obtain ⟨front, _, hfront, hafterFront, rfl⟩ := List.forall₂_cons_left_iff.mp hwords
  obtain ⟨keyWord, _, hkeyWord, hafterKey, rfl⟩ := List.forall₂_cons_left_iff.mp hafterFront
  obtain ⟨back, _, -, hafterBack, rfl⟩ := List.forall₂_cons_left_iff.mp hafterKey
  obtain ⟨keyIdWord, _, hkeyIdWord, hafterKeyId, rfl⟩ := List.forall₂_cons_left_iff.mp hafterBack
  obtain ⟨certificateWord, _, hcertificateWord, hnil, rfl⟩ :=
    List.forall₂_cons_left_iff.mp hafterKeyId
  obtain rfl := List.forall₂_nil_left_iff.mp hnil
  obtain ⟨keyComponent, rfl, hkey⟩ := mem_language_component_iff.mp hkeyWord
  obtain ⟨keyId, rfl, hksk⟩ := mem_language_component_iff.mp hkeyIdWord
  obtain ⟨certificate, rfl, hidCert⟩ := mem_language_component_iff.mp hcertificateWord
  refine ⟨front, back, ⟨(mem_language_notKey_iff hlibrary).mp hfront, keyComponent, keyId,
    certificate, by simp, (accepts_key_iff hlibrary).mp hkey, ?_, ?_⟩, rfl⟩
  · exact (hlibrary.ksk_iff _).mp (hksk.resolve_left (by simp [ksk]))
  · exact (hlibrary.idCert_iff _).mp (hidCert.resolve_left (by simp [idCert]))

variable {keyName : Name}

theorem mem_listLanguage_of_splitsAt (hlibrary : DecidesComponents library) {front back : Name}
    (hsplits : SplitsAt keyName front back) : keyName ∈ listLanguage library kPatterns := by
  obtain ⟨hfront, keyComponent, keyId, certificate, rfl, hkey, hksk, hidCert⟩ := hsplits
  refine mem_listLanguage_iff.mpr
    ⟨[front, [keyComponent], back, [keyId], [certificate]], by simp, ?_⟩
  refine .cons ((mem_language_notKey_iff hlibrary).mpr hfront) (.cons ?_ (.cons (mem_language_any back)
    (.cons ?_ (.cons ?_ .nil))))
  · exact mem_language_component_iff.mpr ⟨_, rfl, (accepts_key_iff hlibrary).mpr hkey⟩
  · exact mem_language_component_iff.mpr ⟨_, rfl, .inr ((hlibrary.ksk_iff _).mpr hksk)⟩
  · exact mem_language_component_iff.mpr ⟨_, rfl, .inr ((hlibrary.idCert_iff _).mpr hidCert)⟩

/-- A key name splits in one way only, for the first `KEY` is the one that counts. -/
theorem SplitsAt.unique {front back front' back' : Name} (hsplits : SplitsAt keyName front back)
    (hother : SplitsAt keyName front' back') : front = front' ∧ back = back' := by
  have hstart : ∀ {front back : Name}, SplitsAt keyName front back →
      keyName.takeWhile (fun component ↦ component.toUri ≠ key) = front := by
    rintro front back ⟨hfront, keyComponent, keyId, certificate, rfl, hkey, -⟩
    rw [List.takeWhile_append_of_pos (by simpa using hfront),
      List.takeWhile_cons_of_neg (by simpa using hkey), List.append_nil]
  have hsame : front = front' := (hstart hsplits).symm.trans (hstart hother)
  subst hsame
  obtain ⟨-, keyComponent, keyId, certificate, rfl, -⟩ := hsplits
  obtain ⟨-, keyComponent', keyId', certificate', hsame, -⟩ := hother
  have hlater := (List.cons_eq_cons.mp (List.append_cancel_left hsame)).2
  exact ⟨rfl, (List.append_inj' hlater rfl).1⟩

/-- The first expression matches every name and is expanded to it. -/
theorem exists_matchName_pMatcher (hlibrary : DecidesComponents library) {packetName : Name}
    (hlength : packetName.length < 2 ^ 64) :
    ∃ depth, ∀ calls ≥ depth, ∀ state, ∃ after,
      (pMatcher library).matchName library calls packetName state = some (true, after) ∧
        (pMatcher library).expand after pExpand = .ok packetName := by
  obtain ⟨depth, hdepth⟩ := (compiledFrom_pPatterns hlibrary).exists_matchName_words
    (isFlat_pPatterns hlibrary) repeatsNonempty_pPatterns countsBelow_pPatterns hlength
  refine ⟨depth, fun calls hcalls state ↦ ?_⟩
  obtain ⟨isMatched, after, hrun, hiff, hwords⟩ := hdepth calls hcalls state
  have hmatched : isMatched = true := by
    rw [hiff, mem_listLanguage_iff]
    exact ⟨[packetName], by simp, .cons (mem_language_any packetName) .nil⟩
  obtain ⟨hsize, words, hflatten, hall, hrefs⟩ := hwords hmatched
  obtain ⟨word, _, -, hnil, rfl⟩ := List.forall₂_cons_left_iff.mp hall
  obtain rfl := List.forall₂_nil_left_iff.mp hnil
  obtain rfl : word = packetName := by simpa using hflatten
  have hfirst : usedRefs after 0 = word := hrefs 0 word rfl
  have hcount : listBackrefCount library pPatterns = 1 := by
    simp [pPatterns, listBackrefCount, backrefCount, markCount,
      hlibrary.markCount_eq [] (by simp)]
  refine ⟨after, hmatched ▸ hrun, ?_⟩
  rw [hcount] at hsize
  simp [RegexTopMatcher.expand, expandLoop, pExpand, getItemFromExpand, expandItem,
    RegexMatcher.decimal, hsize, hfirst, bind, Except.bind, pure, Except.pure]

/-- The second expression matches the key names and is expanded to their parts. -/
theorem exists_matchName_kMatcher (hlibrary : DecidesComponents library)
    (hlength : keyName.length < 2 ^ 64) :
    ∃ depth, ∀ calls ≥ depth, ∀ state, ∃ isMatched after,
      (kMatcher library).matchName library calls keyName state = some (isMatched, after) ∧
        (isMatched = false → ∀ front back, ¬SplitsAt keyName front back) ∧
        (isMatched = true → ∃ front back, SplitsAt keyName front back ∧
          (kMatcher library).expand after kExpand = .ok (front ++ back)) := by
  obtain ⟨depth, hdepth⟩ := (compiledFrom_kPatterns hlibrary).exists_matchName_words
    (isFlat_kPatterns hlibrary) repeatsNonempty_kPatterns countsBelow_kPatterns hlength
  refine ⟨depth, fun calls hcalls state ↦ ?_⟩
  obtain ⟨isMatched, after, hrun, hiff, hwords⟩ := hdepth calls hcalls state
  refine ⟨isMatched, after, hrun, ?_, ?_⟩
  · rintro rfl front back hsplits
    exact Bool.false_ne_true (hiff.mpr (mem_listLanguage_of_splitsAt hlibrary hsplits))
  · intro hmatched
    obtain ⟨hsize, words, rfl, hall, hrefs⟩ := hwords hmatched
    obtain ⟨front, back, hsplits, hgroups⟩ := splitsAt_of_words hlibrary hall
    have hfront : usedRefs after 0 = front := hrefs 0 front (by rw [hgroups]; rfl)
    have hback : usedRefs after 1 = back := hrefs 1 back (by rw [hgroups]; rfl)
    have hcount : listBackrefCount library kPatterns = 2 := by
      simp [kPatterns, listBackrefCount, backrefCount, markCount,
        hlibrary.markCount_eq [] (by simp), hlibrary.markCount_eq key (by simp),
        hlibrary.markCount_eq (ksk ++ ['.', '*']) (by simp),
        hlibrary.markCount_eq idCert (by simp)]
    refine ⟨front, back, hsplits, ?_⟩
    rw [hcount] at hsize
    simp [RegexTopMatcher.expand, expandLoop, kExpand, getItemFromExpand, expandItem,
      RegexMatcher.decimal, hsize, hfront, hback, bind, Except.bind, pure, Except.pure]

/-! ## The check -/

open HyperKeyLocatorNameChecker

/-- Whatever was checked before, a check with a key-locator name succeeds exactly if the key may sign
the packet. The number of components of a name is a `size_t`. -/
theorem check_iff_maySign (hlibrary : DecidesComponents library) :
    ∃ checker, create library = .ok checker ∧
      ∀ (packet : Packet) (keyName : Name) (wire : Bytes),
        (∀ packetName ∈ signedName packet, packetName.length < 2 ^ 64) → keyName.length < 2 ^ 64 →
        ∃ depth, ∀ calls ≥ depth, ∀ state, ∃ answer after,
          checker.check library calls packet ⟨.name keyName, wire⟩ state = some (.ok answer, after) ∧
            (answer = none ↔
              ∃ packetName, signedName packet = some packetName ∧ MaySign keyName packetName) := by
  refine ⟨_, create_eq hlibrary, fun packet keyName wire hpacketName hkeyName ↦ ?_⟩
  cases hsigned : signedName packet with
  | none =>
    refine ⟨0, fun calls _ state ↦ ⟨some "No Signature", state, ?_, by simp⟩⟩
    simp only [check, hsigned]
  | some packetName =>
    obtain ⟨pDepth, hp⟩ := exists_matchName_pMatcher hlibrary (hpacketName packetName hsigned)
    obtain ⟨kDepth, hk⟩ := exists_matchName_kMatcher hlibrary hkeyName
    refine ⟨max pDepth kDepth, fun calls hcalls state ↦ ?_⟩
    obtain ⟨pAfter, hpMatch, hpExpand⟩ := hp calls (le_trans (le_max_left _ _) hcalls) state.hyperPRegex
    obtain ⟨isKeyName, kAfter, hkMatch, hnot, hsplit⟩ :=
      hk calls (le_trans (le_max_right _ _) hcalls) state.hyperKRegex
    simp only [check, hsigned]
    cases isKeyName with
    | false =>
      refine ⟨_, _, checkName_of_not_matches hpMatch hkMatch, iff_of_false (by simp) ?_⟩
      rintro ⟨_, -, front, back, hsplits, -⟩
      exact hnot rfl front back hsplits
    | true =>
      obtain ⟨front, back, hsplits, hkExpand⟩ := hsplit rfl
      have hmay : MaySign keyName packetName ↔ (front ++ back).isPrefixOf packetName = true := by
        constructor
        · rintro ⟨front', back', hsplits', hprefixed⟩
          obtain ⟨rfl, rfl⟩ := hsplits.unique hsplits'
          exact hprefixed
        · exact fun hprefixed ↦ ⟨front, back, hsplits, hprefixed⟩
      rw [checkName_of_matches hpMatch hpExpand hkMatch hkExpand]
      simp only [KeyLocatorChecker.checkRelation, Option.some.injEq, exists_eq_left', hmay]
      cases hprefixed : (front ++ back).isPrefixOf packetName with
      | true => exact ⟨none, ⟨pAfter, kAfter⟩, rfl, by simp⟩
      | false => exact ⟨some "KeyLocatorChecker failed!", ⟨pAfter, kAfter⟩, rfl, by simp⟩

/-- What `boost::regex` does with the expressions of the checker -/
def hierarchyLibrary : RegexLibrary where
  markCount _ := .ok 0
  regexMatch expr text :=
    if expr = ksk ++ ['.', '*'] then if ksk <+: text then some [] else none
    else if expr = text then some [] else none
  pointerOrder components := components
  pointerOrder_perm _ := .refl _

theorem decidesComponents_hierarchyLibrary : DecidesComponents hierarchyLibrary where
  markCount_eq _ _ := rfl
  key_iff text := by
    have hother : key ≠ ksk ++ ['.', '*'] := by decide
    simp only [hierarchyLibrary, if_neg hother, Option.isSome_ite]
    exact eq_comm
  ksk_iff text := by simp [hierarchyLibrary]
  idCert_iff text := by
    have hother : idCert ≠ ksk ++ ['.', '*'] := by decide
    simp only [hierarchyLibrary, if_neg hother, Option.isSome_ite]
    exact eq_comm

def sampleKeyName : Name :=
  [.generic [97], .generic [75, 69, 89], .generic [107, 115, 107, 45, 49],
    .generic [73, 68, 45, 67, 69, 82, 84]]

def sampleData : Data where
  name := [.generic [97], .generic [98]]
  signatureInfo := ⟨Tlv.digestSha256, none, []⟩
  wire := []

theorem check_iff_maySign_sample :
    ∃ checker, create hierarchyLibrary = .ok checker ∧
      ∃ depth, ∀ calls ≥ depth, ∀ state, ∃ after,
        checker.check hierarchyLibrary calls (.data sampleData) ⟨.name sampleKeyName, []⟩ state =
          some (.ok none, after) := by
  have hmay : MaySign sampleKeyName sampleData.name := by
    refine ⟨[.generic [97]], [], ⟨by decide, .generic [75, 69, 89], _, _, rfl, ?_, ?_, ?_⟩, ?_⟩
    all_goals decide
  obtain ⟨checker, hcreate, hcheck⟩ := check_iff_maySign decidesComponents_hierarchyLibrary
  obtain ⟨depth, hdepth⟩ := hcheck (.data sampleData) sampleKeyName [] (by
    rintro _ hname
    cases hname
    decide) (by decide)
  refine ⟨checker, hcreate, depth, fun calls hcalls state ↦ ?_⟩
  obtain ⟨answer, after, hrun, hiff⟩ := hdepth calls hcalls state
  obtain rfl : answer = none := hiff.mpr ⟨sampleData.name, rfl, hmay⟩
  exact ⟨after, hrun⟩

end HierarchicalChecker

end NdnCxx
