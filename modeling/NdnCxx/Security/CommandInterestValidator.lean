import NdnCxx.Regex.FromName
import NdnCxx.Security.TimestampNumbers

/-!
# The validator of command Interests

`CommandInterestValidator` finds the first of its rules that fits the name of an Interest and the key
that signed it, lets the Interest pass if the rule is exempted, and verifies the signature and compares
the timestamp with the record of the key otherwise. Every way out of its `checkPolicy` reports once,
whatever the bytes of the Interest are. The records are neither removed nor reset, and only an
Interest that passes every check sets one, so the accepted times of a key increase strictly.

The Interests are owned by shared pointers, as `shared_from_this` asks for, and the callbacks return.
-/

namespace NdnCxx

open SystemClock

/-! ## Rules -/

/-- A `Regex` and what its last match left behind. -/
structure SecRuleSpecific.Matcher where
  regex : RegexTopMatcher
  state : RegexTopMatcher.State

/-- `SecRuleSpecific`; a rule without `m_signerRegex` is exempted. -/
structure SecRuleSpecific where
  dataRegex : SecRuleSpecific.Matcher
  signerRegex : Option SecRuleSpecific.Matcher

namespace SecRuleSpecific

namespace Matcher

/-- A matcher that was just made. -/
def create (regex : RegexTopMatcher) : Matcher := ⟨regex, .initial⟩

/-- `Regex::match`; `none` is a match without enough depth for its calls. -/
def matchName (library : RegexLibrary) (calls : ℕ) (name : Name) (matcher : Matcher) :
    Option (Bool × Matcher) := do
  let (isMatched, state) ← matcher.regex.matchName library calls name matcher.state
  return (isMatched, { matcher with state := state })

end Matcher

def isExempted (rule : SecRuleSpecific) : Bool := rule.signerRegex.isNone

def matchSigner (library : RegexLibrary) (calls : ℕ) (signerName : Name) :
    Option Matcher → Option (Bool × Option Matcher)
  | none => some (true, none)
  | some signerRegex => do
      let (isMatched, signerRegex) ← signerRegex.matchName library calls signerName
      return (isMatched, some signerRegex)

def satisfy (library : RegexLibrary) (calls : ℕ) (dataName signerName : Name)
    (rule : SecRuleSpecific) : Option (Bool × SecRuleSpecific) := do
  let (isSignerMatched, signerRegex) ← matchSigner library calls signerName rule.signerRegex
  let (isDataMatched, dataRegex) ← rule.dataRegex.matchName library calls dataName
  return (isDataMatched && isSignerMatched, ⟨dataRegex, signerRegex⟩)

end SecRuleSpecific

/-! ## The validator -/

structure CommandInterestValidator where
  graceInterval : ℤ
  trustAnchorsForInterest : OrderedMap Name PublicKey (· < ·)
  trustScopeForInterest : List SecRuleSpecific
  lastTimestamp : LastTimestampMap

namespace CommandInterestValidator

def defaultGraceInterval : ℤ := 3000

def minLength : ℕ := 4

/-- The constructor, of an interval in milliseconds -/
def create (graceInterval : ℤ) : CommandInterestValidator where
  graceInterval := if graceInterval < 0 then defaultGraceInterval else graceInterval
  trustAnchorsForInterest := OrderedMap.empty
  trustScopeForInterest := []
  lastTimestamp := OrderedMap.empty

/-- `CommandInterestValidator::addInterestRule` with a public key. The anchor is set before the
regular expressions are compiled. -/
def addInterestRule (library : RegexLibrary) (regex : List Char) (keyName : Name)
    (publicKey : PublicKey) (validator : CommandInterestValidator) :
    Except Error Unit × CommandInterestValidator :=
  let validator := { validator with
    trustAnchorsForInterest := validator.trustAnchorsForInterest.assign keyName publicKey }
  match RegexTopMatcher.compile library regex with
  | .error error => (.error error, validator)
  | .ok interestRegex =>
      match RegexTopMatcher.fromName library keyName true with
      | .error error => (.error error, validator)
      | .ok signerRegex =>
          (.ok (), { validator with
            trustScopeForInterest := validator.trustScopeForInterest ++
              [⟨.create interestRegex, some (.create signerRegex)⟩] })

/-- `CommandInterestValidator::addInterestRule` with a certificate -/
def addInterestRuleOfCertificate (library : RegexLibrary) (regex : List Char)
    (certificateName : Name) (publicKeyInfo : PublicKey) (validator : CommandInterestValidator) :
    Except Error Unit × CommandInterestValidator :=
  match certificateNameToPublicKeyName certificateName with
  | .error error => (.error error, validator)
  | .ok keyName => validator.addInterestRule library regex keyName publicKeyInfo

def addInterestBypassRule (library : RegexLibrary) (regex : List Char)
    (validator : CommandInterestValidator) : Except Error Unit × CommandInterestValidator :=
  match RegexTopMatcher.compile library regex with
  | .error error => (.error error, validator)
  | .ok interestRegex =>
      (.ok (), { validator with
        trustScopeForInterest := validator.trustScopeForInterest ++ [⟨.create interestRegex, none⟩] })

/-- `CommandInterestValidator::reset`, which keeps the timestamps -/
def reset (validator : CommandInterestValidator) : CommandInterestValidator :=
  { validator with trustAnchorsForInterest := OrderedMap.empty, trustScopeForInterest := [] }

/-! ## The policy check -/

/-- The ways out of the `try` block of `checkPolicy`: a report of a failure, the report of an Interest
that an exempted rule lets pass, and falling out of the block once the record of the key is set. -/
inductive Decision
  | failed (failureInfo : String)
  | exempted
  | authorized (keyName : Name) (interestTime : ℤ)
  deriving DecidableEq

/-- `SignatureSha256WithRsa::SignatureSha256WithRsa(const Signature&)` and `getKeyLocator` -/
def signatureSha256WithRsa (signature : SignatureInfo) : Except Error KeyLocator :=
  if signature.type ≠ Tlv.signatureSha256WithRsa then
    .error ⟨.signature, "Incorrect signature type"⟩
  else
    match signature.keyLocator with
    | none => .error ⟨.signature, "KeyLocator is missing"⟩
    | some keyLocator => .ok keyLocator

/-- The signature of an Interest and the name of the key, or the failure that is reported. -/
def signer (interestName : Name) : Except Error (Except String (SignatureInfo × Name)) := do
  let signature ← SignatureInfo.ofInterestName interestName
  if signature.type ≠ Tlv.signatureSha256WithRsa then
    return .error "Require SignatureSha256WithRsa"
  else
    let keyLocator ← signatureSha256WithRsa signature
    match keyLocator.content with
    | .name keyLocatorName =>
        return .ok (signature, ← certificateNameToPublicKeyName keyLocatorName)
    | _ => return .error "Key Locator is not a name"

/-- The loop over the rules: whether the first rule that is satisfied is exempted, if there is one,
and the rules as the matches left them. -/
def scanTrustScope (library : RegexLibrary) (calls : ℕ) (interestName keyName : Name) :
    List SecRuleSpecific → Option (Option Bool × List SecRuleSpecific)
  | [] => some (none, [])
  | rule :: rules => do
      let (isSatisfied, rule) ← rule.satisfy library calls interestName keyName
      if isSatisfied then return (some rule.isExempted, rule :: rules)
      else
        let (found, rules) ← scanTrustScope library calls interestName keyName rules
        return (found, rule :: rules)

/-- The check of the timestamp, with the update of the record. -/
def checkTimestamp (graceInterval : ℤ) (interestName keyName : Name) (currentTime : ℤ)
    (lastTimestamp : LastTimestampMap) : Except Error (Decision × LastTimestampMap) := do
  let interestTime ← ValidatorConfig.interestTime interestName
  match lastTimestamp.find keyName with
  | none =>
      if ¬ (earlier currentTime graceInterval ≤ interestTime ∧
          interestTime ≤ later currentTime graceInterval) then
        return (.failed ("The command is not in grace interval: " ++ interestName.toUri),
          lastTimestamp)
      else return (.authorized keyName interestTime, lastTimestamp.assign keyName interestTime)
  | some recorded =>
      if interestTime ≤ recorded then
        return (.failed ("The command is outdated: " ++ interestName.toUri), lastTimestamp)
      else return (.authorized keyName interestTime, lastTimestamp.setValue keyName interestTime)

/-- What follows the loop over the rules when the rule that was found is not exempted. -/
def verify (crypto : Crypto) (interest : Interest) (signature : SignatureInfo) (keyName : Name)
    (currentTime : ℤ) (validator : CommandInterestValidator) :
    Except Error Decision × CommandInterestValidator :=
  -- `operator[]` adds a public key without bits
  let publicKey := (validator.trustAnchorsForInterest.find keyName).getD []
  let validator := { validator with
    trustAnchorsForInterest := validator.trustAnchorsForInterest.assign keyName publicKey }
  if !crypto.verifySignature (.interest interest) signature publicKey then
    (.ok (.failed ("Signature cannot be validated: " ++ interest.name.toUri)), validator)
  else
    match checkTimestamp validator.graceInterval interest.name keyName currentTime
        validator.lastTimestamp with
    | .error error => (.error error, validator)
    | .ok (decision, lastTimestamp) =>
        (.ok decision, { validator with lastTimestamp := lastTimestamp })

/-- The `try` block of `checkPolicy` -/
def attempt (library : RegexLibrary) (crypto : Crypto) (calls : ℕ) (interest : Interest)
    (currentTime : ℤ) (validator : CommandInterestValidator) :
    Option (Except Error Decision × CommandInterestValidator) :=
  match signer interest.name with
  | .error error => some (.error error, validator)
  | .ok (.error failureInfo) => some (.ok (.failed failureInfo), validator)
  | .ok (.ok (signature, keyName)) => do
      let (found, rules) ← scanTrustScope library calls interest.name keyName
        validator.trustScopeForInterest
      let validator := { validator with trustScopeForInterest := rules }
      match found with
      | none =>
          return (.ok (.failed ("Signer cannot be authorized for the command: " ++ keyName.toUri)),
            validator)
      | some true => return (.ok .exempted, validator)
      | some false => return validator.verify crypto interest signature keyName currentTime

/-- The calls behind a decision, and the handlers around the block -/
def report : Except Error Decision → Outcome
  | .ok (.failed failureInfo) => .call (.failed failureInfo)
  | .ok .exempted => .call .validated
  | .ok (.authorized _ _) => .call .validated
  | .error error =>
      if error.kind = .signature then .call (.failed "No valid signature")
      else if error.kind = .identityCertificate then
        .call (.failed "Cannot locate the signing key")
      else if error.isTlvError then .call (.failed "Cannot decode signature related TLVs")
      else ⟨[], [], some error⟩

/-- `CommandInterestValidator::checkPolicy(const Interest&, ...)`, with the way it comes to its
outcome -/
def checkPolicy (library : RegexLibrary) (crypto : Crypto) (calls : ℕ) (interest : Interest)
    (currentTime : ℤ) (validator : CommandInterestValidator) :
    Option (Except Error Decision × Outcome × CommandInterestValidator) :=
  if interest.name.length < minLength then
    let failed : Except Error Decision :=
      .ok (.failed ("Interest is not signed: " ++ interest.name.toUri))
    some (failed, report failed, validator)
  else do
    let (decision, validator) ← validator.attempt library crypto calls interest currentTime
    return (decision, report decision, validator)

/-! ## The ways out of the check -/

section Decisions

variable {library : RegexLibrary} {crypto : Crypto} {calls : ℕ} {interest : Interest}
  {currentTime : ℤ} {validator next : CommandInterestValidator} {decision : Except Error Decision}

theorem signer_onlyTlvErrors (interestName : Name) : OnlyTlvErrors (signer interestName) := by
  refine .bind (SignatureInfo.ofInterestName_onlyTlvErrors interestName) fun signature ↦ ?_
  refine .ite (.ok _) (.bind ?_ fun keyLocator ↦ ?_)
  · unfold signatureSha256WithRsa
    split_ifs
    · exact .throw rfl
    · split
      · exact .throw rfl
      · exact .ok _
  · split
    · exact .bind (certificateNameToPublicKeyName_onlyTlvErrors _) fun _ ↦ .ok _
    · exact .ok _

theorem report_eq_call (herror : OnlyTlvErrors decision) : ∃ call, report decision = .call call := by
  cases decision with
  | ok decision => cases decision <;> exact ⟨_, rfl⟩
  | error error =>
    have htlv := herror error rfl
    simp only [report]
    split_ifs
    · exact ⟨_, rfl⟩
    · exact ⟨_, rfl⟩
    · exact ⟨_, rfl⟩

/-- An Interest that is reported as validated was let pass by an exempted rule or authorized. -/
theorem report_eq_validated (hreport : report decision = .call .validated) :
    decision = .ok .exempted ∨ ∃ keyName time, decision = .ok (.authorized keyName time) := by
  cases decision with
  | ok decision =>
    cases decision with
    | failed failureInfo => simp [report, Outcome.call] at hreport
    | exempted => exact .inl rfl
    | authorized keyName time => exact .inr ⟨keyName, time, rfl⟩
  | error error =>
    simp only [report] at hreport
    split_ifs at hreport <;> simp [Outcome.call] at hreport

/-- The decision is to authorize the Interest, and the record of its key is set to its time, which is
later than the record before. -/
structure Authorizes (interestName keyName : Name) (time : ℤ) (before after : LastTimestampMap) :
    Prop where
  interestTime : ValidatorConfig.interestTime interestName = .ok time
  later : ∀ recorded, before.find keyName = some recorded → recorded < time
  find : ∀ other, after.find other = if other = keyName then some time else before.find other

variable {keyName : Name} {decided : Decision}

/-- What the check of the timestamp can end with. -/
theorem checkTimestamp_cases {graceInterval : ℤ} {interestName : Name}
    {lastTimestamp after : LastTimestampMap}
    (hcheck : checkTimestamp graceInterval interestName keyName currentTime lastTimestamp =
      .ok (decided, after)) :
    ((∃ failureInfo, decided = .failed failureInfo) ∧ after = lastTimestamp) ∨
      ∃ time, decided = .authorized keyName time ∧
        Authorizes interestName keyName time lastTimestamp after := by
  obtain ⟨time, htime, hcheck⟩ := bind_eq_ok_iff.mp hcheck
  cases hfind : lastTimestamp.find keyName with
  | none =>
    rw [hfind] at hcheck
    dsimp only at hcheck
    split_ifs at hcheck
    · cases hcheck
      refine .inr ⟨time, rfl, htime, ?_, fun other ↦ OrderedMap.find_assign _ _ _ _⟩
      intro recorded hrecorded
      rw [hfind] at hrecorded
      cases hrecorded
    · cases hcheck
      exact .inl ⟨⟨_, rfl⟩, rfl⟩
  | some recorded =>
    rw [hfind] at hcheck
    dsimp only at hcheck
    split_ifs at hcheck with houtdated
    · cases hcheck
      exact .inl ⟨⟨_, rfl⟩, rfl⟩
    · cases hcheck
      refine .inr ⟨time, rfl, htime, ?_, fun other ↦ ?_⟩
      · intro recorded' hrecorded
        rw [hfind] at hrecorded
        cases hrecorded
        exact not_le.mp houtdated
      · -- setting through the iterator is the same as assigning
        rw [← OrderedMap.find_assign, OrderedMap.assign, OrderedMap.insert_eq_self]
        simp [hfind]

/-- What a policy check does: either it authorizes the Interest, or it sets no record. All exceptions
are caught. -/
structure Decides (interest : Interest) (validator : CommandInterestValidator)
    (decision : Except Error Decision) (next : CommandInterestValidator) : Prop where
  onlyTlvErrors : OnlyTlvErrors decision
  records : (∃ signature keyName time, decision = .ok (.authorized keyName time) ∧
      signer interest.name = .ok (.ok (signature, keyName)) ∧
      Authorizes interest.name keyName time validator.lastTimestamp next.lastTimestamp) ∨
    (∀ keyName time, decision ≠ .ok (.authorized keyName time)) ∧
      next.lastTimestamp = validator.lastTimestamp

/-- A decision that is not to authorize the Interest leaves the records as they are. -/
theorem Decides.of_ok (hdecided : ∀ keyName time, decided ≠ .authorized keyName time)
    (hrecords : next.lastTimestamp = validator.lastTimestamp) :
    Decides interest validator (.ok decided) next where
  onlyTlvErrors := .ok _
  records := .inr ⟨fun keyName time hsame ↦ hdecided keyName time (Except.ok.inj hsame), hrecords⟩

theorem Decides.of_error {error : Error} (htlv : error.isTlvError = true)
    (hrecords : next.lastTimestamp = validator.lastTimestamp) :
    Decides interest validator (.error error) next where
  onlyTlvErrors := .throw htlv
  records := .inr ⟨by simp, hrecords⟩

theorem decides_verify {signature : SignatureInfo}
    (hsigner : signer interest.name = .ok (.ok (signature, keyName)))
    (hverify : validator.verify crypto interest signature keyName currentTime = (decision, next)) :
    Decides interest validator decision next := by
  unfold verify at hverify
  dsimp only at hverify
  split_ifs at hverify
  · cases hverify
    exact .of_ok (by simp) rfl
  · split at hverify
    · next error hcheck =>
      cases hverify
      have htlv : OnlyTlvErrors (checkTimestamp validator.graceInterval interest.name keyName
          currentTime validator.lastTimestamp) := by
        refine .bind (ValidatorConfig.interestTime_onlyTlvErrors _) fun _ ↦ ?_
        split
        · exact .ite (.ok _) (.ok _)
        · exact .ite (.ok _) (.ok _)
      exact .of_error (htlv error hcheck) rfl
    · next decided lastTimestamp hcheck =>
      cases hverify
      rcases checkTimestamp_cases hcheck with ⟨⟨failureInfo, rfl⟩, hsame⟩ | ⟨time, rfl, hauthorizes⟩
      · exact .of_ok (by simp) hsame
      · exact ⟨.ok _, .inl ⟨signature, keyName, time, rfl, hsigner, hauthorizes⟩⟩

theorem decides_attempt
    (hattempt : validator.attempt library crypto calls interest currentTime =
      some (decision, next)) : Decides interest validator decision next := by
  unfold attempt at hattempt
  split at hattempt
  · next error hsigner =>
    cases hattempt
    exact .of_error (signer_onlyTlvErrors interest.name error hsigner) rfl
  · cases hattempt
    exact .of_ok (by simp) rfl
  · next signature keyName hsigner =>
    obtain ⟨⟨found, rules⟩, -, hattempt⟩ := Option.bind_eq_some_iff.mp hattempt
    cases found with
    | none =>
      cases hattempt
      exact .of_ok (by simp) rfl
    | some isExempted =>
      cases isExempted with
      | true =>
        cases hattempt
        exact .of_ok (by simp) rfl
      | false =>
        have hdecides := decides_verify hsigner (Option.some.inj hattempt)
        exact ⟨hdecides.onlyTlvErrors, hdecides.records⟩

theorem decides_checkPolicy {outcome : Outcome}
    (hcheck : validator.checkPolicy library crypto calls interest currentTime =
      some (decision, outcome, next)) :
    Decides interest validator decision next ∧ outcome = report decision := by
  unfold checkPolicy at hcheck
  split_ifs at hcheck
  · cases hcheck
    exact ⟨.of_ok (by simp) rfl, rfl⟩
  · obtain ⟨⟨decided, after⟩, hattempt, hcheck⟩ := Option.bind_eq_some_iff.mp hcheck
    cases hcheck
    exact ⟨decides_attempt hattempt, rfl⟩

/-- A check never sets a record back. -/
theorem Decides.le_record (hdecides : Decides interest validator decision next) {recorded : ℤ}
    (hfind : validator.lastTimestamp.find keyName = some recorded) :
    ∃ record, next.lastTimestamp.find keyName = some record ∧ recorded ≤ record := by
  rcases hdecides.records with ⟨signature, authorized, time, -, -, hauthorizes⟩ | ⟨-, hsame⟩
  · by_cases hkey : keyName = authorized
    · refine ⟨time, by rw [hauthorizes.find, if_pos hkey], ?_⟩
      exact (hauthorizes.later recorded (hkey ▸ hfind)).le
    · exact ⟨recorded, by rw [hauthorizes.find, if_neg hkey, hfind], le_rfl⟩
  · exact ⟨recorded, by rw [hsame, hfind], le_rfl⟩

end Decisions

end CommandInterestValidator

end NdnCxx
