import NdnCxx.Security.CommandInterestValidator

/-!
# Runs of the validator of command Interests

Whatever rules are added and removed, every check of an Interest calls one of its callbacks, and the
times of the Interests that are accepted for a key, other than by an exempted rule, increase strictly.
The records are the invariant: none is removed or set back, and each is as late as everything that was
accepted for its key.
-/

namespace NdnCxx

open Run

variable {keyName : Name}

namespace CommandInterestValidator

/-- A call of the validator. An Interest is checked with the reading of the clock. -/
inductive Event
  | addInterestRule (regex : List Char) (keyName : Name) (publicKey : PublicKey)
  | addInterestRuleOfCertificate (regex : List Char) (certificateName : Name)
      (publicKeyInfo : PublicKey)
  | addInterestBypassRule (regex : List Char)
  | reset
  | checkPolicy (interest : Interest) (currentTime : ℤ)

def Event.interest : Event → Option Interest
  | checkPolicy interest _ => some interest
  | _ => none

/-- A call of `checkPolicy` that has returned. -/
structure Check where
  interest : Interest
  decision : Except Error Decision
  outcome : Outcome

/-- A validator with its checks so far. -/
structure History where
  validator : CommandInterestValidator
  checks : List Check

namespace History

/-- The validator after a call that only changes what it is configured with. -/
def configure (history : History) (validator : CommandInterestValidator) : Option History :=
  some { history with validator := validator }

def step (library : RegexLibrary) (crypto : Crypto) (calls : ℕ) (history : History) :
    Event → Option History
  | .addInterestRule regex keyName publicKey =>
      history.configure (history.validator.addInterestRule library regex keyName publicKey).2
  | .addInterestRuleOfCertificate regex certificateName publicKeyInfo =>
      history.configure (history.validator.addInterestRuleOfCertificate library regex
        certificateName publicKeyInfo).2
  | .addInterestBypassRule regex =>
      history.configure (history.validator.addInterestBypassRule library regex).2
  | .reset => history.configure history.validator.reset
  | .checkPolicy interest currentTime => do
      let (decision, outcome, validator) ←
        history.validator.checkPolicy library crypto calls interest currentTime
      return ⟨validator, history.checks ++ [⟨interest, decision, outcome⟩]⟩

end History

/-- The Interest was accepted, and not by an exempted rule; its key and its time are these. -/
structure Check.Accepts (check : Check) (keyName : Name) (time : ℤ) : Prop where
  validated : check.outcome = .call .validated
  not_exempted : check.decision ≠ .ok .exempted
  signer : ∃ signature, CommandInterestValidator.signer check.interest.name =
    .ok (.ok (signature, keyName))
  interestTime : ValidatorConfig.interestTime check.interest.name = .ok time

/-- What a later check accepts for the same key has a later time. -/
def Check.Precedes (first second : Check) : Prop :=
  ∀ keyName time time', first.Accepts keyName time → second.Accepts keyName time' → time < time'

section Accepts

variable {interest : Interest} {validator next : CommandInterestValidator}
  {decision : Except Error Decision} {outcome : Outcome}

theorem Decides.authorizes_of_accepts {time : ℤ}
    (hdecides : Decides interest validator decision next) (hreport : outcome = report decision)
    (haccepts : Check.Accepts ⟨interest, decision, outcome⟩ keyName time) :
    Authorizes interest.name keyName time validator.lastTimestamp next.lastTimestamp := by
  rcases hdecides.records with ⟨signature, keyName', time', -, hsigner, hauthorizes⟩ | ⟨hnone, -⟩
  · obtain ⟨signature', hsigner'⟩ := haccepts.signer
    have hkey : keyName' = keyName := by
      have hsame := hsigner.symm.trans hsigner'
      simp only [Except.ok.injEq, Prod.mk.injEq] at hsame
      exact hsame.2
    have htime : time' = time :=
      Except.ok.inj (hauthorizes.interestTime.symm.trans haccepts.interestTime)
    rwa [hkey, htime] at hauthorizes
  · rcases report_eq_validated (hreport.symm.trans haccepts.validated) with hexempted |
      ⟨keyName', time', hauthorized⟩
    · exact absurd hexempted haccepts.not_exempted
    · exact absurd hauthorized (hnone keyName' time')

/-- An Interest that is accepted, and not by an exempted rule, has a key and a time. -/
theorem Decides.exists_accepts (hdecides : Decides interest validator decision next)
    (hreport : outcome = report decision) (hvalidated : outcome = .call .validated)
    (hexempted : decision ≠ .ok .exempted) :
    ∃ keyName time, Check.Accepts ⟨interest, decision, outcome⟩ keyName time := by
  rcases hdecides.records with ⟨signature, keyName, time, -, hsigner, hauthorizes⟩ | ⟨hnone, -⟩
  · exact ⟨keyName, time, hvalidated, hexempted, ⟨signature, hsigner⟩, hauthorizes.interestTime⟩
  · rcases report_eq_validated (hreport.symm.trans hvalidated) with hsame | ⟨keyName, time, hsame⟩
    · exact absurd hsame hexempted
    · exact absurd hsame (hnone keyName time)

end Accepts

/-! ## What the records say of the checks so far -/

namespace History

/-- Every check has made one call, and the record of a key is not before what was accepted for it. -/
structure IsRecorded (history : History) : Prop where
  reports : ∀ check ∈ history.checks, ∃ call, check.outcome = .call call
  accepts : ∀ check ∈ history.checks, check.outcome = .call .validated →
    check.decision ≠ .ok .exempted → ∃ keyName time, check.Accepts keyName time
  recorded : ∀ check ∈ history.checks, ∀ keyName time, check.Accepts keyName time →
    ∃ record, history.validator.lastTimestamp.find keyName = some record ∧ time ≤ record
  increasing : history.checks.Pairwise Check.Precedes

section Steps

variable {library : RegexLibrary} {crypto : Crypto} {calls : ℕ} {history next : History}
    {validator : CommandInterestValidator}

theorem isRecorded_configure (hrecorded : history.IsRecorded)
    (hsame : validator.lastTimestamp = history.validator.lastTimestamp) :
    IsRecorded { history with validator := validator } where
  reports := hrecorded.reports
  accepts := hrecorded.accepts
  recorded := by
    simp only [hsame]
    exact hrecorded.recorded
  increasing := hrecorded.increasing

theorem lastTimestamp_addInterestRule (regex : List Char) (keyName : Name) (publicKey : PublicKey)
    (validator : CommandInterestValidator) :
    (validator.addInterestRule library regex keyName publicKey).2.lastTimestamp =
      validator.lastTimestamp := by
  unfold addInterestRule
  dsimp only
  split
  · rfl
  · split <;> rfl

theorem isRecorded_check {interest : Interest} {decision : Except Error Decision}
    {outcome : Outcome} (hrecorded : history.IsRecorded)
    (hdecides : Decides interest history.validator decision validator)
    (hreport : outcome = report decision) :
    IsRecorded ⟨validator, history.checks ++ [⟨interest, decision, outcome⟩]⟩ where
  reports := by
    intro check hcheck
    rcases List.mem_append.mp hcheck with hold | hnew
    · exact hrecorded.reports check hold
    · obtain rfl := List.mem_singleton.mp hnew
      rw [hreport]
      exact report_eq_call hdecides.onlyTlvErrors
  accepts := by
    intro check hcheck
    rcases List.mem_append.mp hcheck with hold | hnew
    · exact hrecorded.accepts check hold
    · obtain rfl := List.mem_singleton.mp hnew
      exact hdecides.exists_accepts hreport
  recorded := by
    intro check hcheck keyName time haccepts
    rcases List.mem_append.mp hcheck with hold | hnew
    · obtain ⟨earlier, hfind, hle⟩ := hrecorded.recorded check hold keyName time haccepts
      obtain ⟨record, hrecord, hlater⟩ := hdecides.le_record hfind
      exact ⟨record, hrecord, hle.trans hlater⟩
    · obtain rfl := List.mem_singleton.mp hnew
      have hauthorizes := hdecides.authorizes_of_accepts hreport haccepts
      exact ⟨time, by rw [hauthorizes.find, if_pos rfl], le_rfl⟩
  increasing := by
    rw [List.pairwise_append]
    refine ⟨hrecorded.increasing, List.pairwise_singleton _ _, ?_⟩
    intro first hfirst second hsecond keyName time time' haccepts haccepts'
    obtain rfl := List.mem_singleton.mp hsecond
    obtain ⟨record, hfind, hle⟩ := hrecorded.recorded first hfirst keyName time haccepts
    exact hle.trans_lt ((hdecides.authorizes_of_accepts hreport haccepts').later record hfind)

variable {event : Event}

/-- Every call keeps the records in order. -/
theorem isRecorded_step (hrecorded : history.IsRecorded)
    (hstep : history.step library crypto calls event = some next) : next.IsRecorded := by
  cases event with
  | addInterestRule regex keyName publicKey =>
    cases hstep
    exact isRecorded_configure hrecorded (lastTimestamp_addInterestRule regex keyName publicKey _)
  | addInterestRuleOfCertificate regex certificateName publicKeyInfo =>
    cases hstep
    apply isRecorded_configure hrecorded
    unfold addInterestRuleOfCertificate
    split
    · rfl
    · exact lastTimestamp_addInterestRule regex _ publicKeyInfo _
  | addInterestBypassRule regex =>
    cases hstep
    apply isRecorded_configure hrecorded
    unfold addInterestBypassRule
    split <;> rfl
  | reset =>
    cases hstep
    exact isRecorded_configure hrecorded rfl
  | checkPolicy interest currentTime =>
    obtain ⟨⟨decision, outcome, validator⟩, hcheck, hstep⟩ := Option.bind_eq_some_iff.mp hstep
    cases hstep
    obtain ⟨hdecides, hreport⟩ := decides_checkPolicy hcheck
    exact isRecorded_check hrecorded hdecides hreport

theorem checks_step
    (hstep : history.step library crypto calls event = some next) :
    next.checks.map Check.interest = history.checks.map Check.interest ++ event.interest.toList := by
  cases event with
  | checkPolicy interest currentTime =>
    obtain ⟨⟨decision, outcome, validator⟩, -, hstep⟩ := Option.bind_eq_some_iff.mp hstep
    cases hstep
    simp [Event.interest]
  | _ =>
    cases hstep
    simp [Event.interest]

end Steps

end History

end CommandInterestValidator

/-! ## Every call returns -/

namespace SecRuleSpecific

variable (library : RegexLibrary)

/-- The regular expressions of a rule, which matches do not change. -/
def regexes (rule : SecRuleSpecific) : RegexTopMatcher × Option RegexTopMatcher :=
  (rule.dataRegex.regex, rule.signerRegex.map Matcher.regex)

/-- A match returns with enough depth, and keeps the regular expression. -/
theorem Matcher.exists_depth (regex : RegexTopMatcher) (name : Name) :
    ∃ depth, ∀ calls ≥ depth, ∀ matcher : Matcher, matcher.regex = regex →
      ∃ isMatched after, matcher.matchName library calls name = some (isMatched, after) ∧
        after.regex = regex := by
  obtain ⟨depth, hdepth⟩ := RegexTopMatcher.exists_depth_matchName library regex name
  refine ⟨depth, ?_⟩
  rintro calls hcalls matcher rfl
  obtain ⟨⟨isMatched, state⟩, hmatch⟩ :=
    Option.isSome_iff_exists.mp (hdepth calls hcalls matcher.state)
  exact ⟨isMatched, { matcher with state := state }, by simp [matchName, hmatch], rfl⟩

theorem exists_depth_matchSigner (regex : Option RegexTopMatcher) (signerName : Name) :
    ∃ depth, ∀ calls ≥ depth, ∀ signerRegex : Option Matcher,
      signerRegex.map Matcher.regex = regex → ∃ isMatched after,
        matchSigner library calls signerName signerRegex = some (isMatched, after) ∧
          after.map Matcher.regex = regex := by
  cases regex with
  | none =>
    refine ⟨0, ?_⟩
    intro calls _ signerRegex hnone
    obtain rfl := Option.map_eq_none_iff.mp hnone
    exact ⟨true, none, rfl, rfl⟩
  | some regex =>
    obtain ⟨depth, hdepth⟩ := Matcher.exists_depth library regex signerName
    refine ⟨depth, ?_⟩
    intro calls hcalls signerRegex hsome
    obtain ⟨matcher, rfl, hregex⟩ := Option.map_eq_some_iff.mp hsome
    obtain ⟨isMatched, after, hmatch, hafter⟩ := hdepth calls hcalls matcher hregex
    exact ⟨isMatched, some after, by simp [matchSigner, hmatch], by simp [hafter]⟩

theorem exists_depth_satisfy (regexes : RegexTopMatcher × Option RegexTopMatcher)
    (dataName signerName : Name) :
    ∃ depth, ∀ calls ≥ depth, ∀ rule : SecRuleSpecific, rule.regexes = regexes →
      ∃ isSatisfied after, rule.satisfy library calls dataName signerName =
        some (isSatisfied, after) ∧ after.regexes = regexes := by
  obtain ⟨first, hfirst⟩ := exists_depth_matchSigner library regexes.2 signerName
  obtain ⟨second, hsecond⟩ := Matcher.exists_depth library regexes.1 dataName
  refine ⟨max first second, ?_⟩
  rintro calls hcalls rule rfl
  obtain ⟨isSignerMatched, signerRegex, hsigner, hsignerRegex⟩ :=
    hfirst calls (le_trans (le_max_left first second) hcalls) rule.signerRegex rfl
  obtain ⟨isDataMatched, dataRegex, hdata, hdataRegex⟩ :=
    hsecond calls (le_trans (le_max_right first second) hcalls) rule.dataRegex rfl
  refine ⟨isDataMatched && isSignerMatched, ⟨dataRegex, signerRegex⟩, ?_, ?_⟩
  · simp [satisfy, hsigner, hdata]
  · rw [regexes, hdataRegex, hsignerRegex]

end SecRuleSpecific

namespace CommandInterestValidator

variable (library : RegexLibrary)

/-- The regular expressions of the rules -/
def regexes (validator : CommandInterestValidator) :
    List (RegexTopMatcher × Option RegexTopMatcher) :=
  validator.trustScopeForInterest.map SecRuleSpecific.regexes

theorem exists_depth_scanTrustScope
    (regexes : List (RegexTopMatcher × Option RegexTopMatcher)) (interestName keyName : Name) :
    ∃ depth, ∀ calls ≥ depth, ∀ rules : List SecRuleSpecific,
      rules.map SecRuleSpecific.regexes = regexes → ∃ found after,
        scanTrustScope library calls interestName keyName rules = some (found, after) ∧
          after.map SecRuleSpecific.regexes = regexes := by
  induction regexes with
  | nil =>
    refine ⟨0, ?_⟩
    intro calls _ rules hnil
    obtain rfl := List.map_eq_nil_iff.mp hnil
    exact ⟨none, [], rfl, rfl⟩
  | cons first regexes ih =>
    obtain ⟨front, hfront⟩ :=
      SecRuleSpecific.exists_depth_satisfy library first interestName keyName
    obtain ⟨back, hback⟩ := ih
    refine ⟨max front back, ?_⟩
    intro calls hcalls rules hcons
    obtain ⟨rule, rules, rfl, hrule, hrules⟩ := List.map_eq_cons_iff.mp hcons
    obtain ⟨isSatisfied, after, hsatisfy, hafter⟩ :=
      hfront calls (le_trans (le_max_left front back) hcalls) rule hrule
    obtain ⟨found, remaining, hscan, hremaining⟩ :=
      hback calls (le_trans (le_max_right front back) hcalls) rules hrules
    cases isSatisfied with
    | true =>
      refine ⟨some after.isExempted, after :: rules, ?_, ?_⟩
      · simp [scanTrustScope, hsatisfy]
      · rw [List.map_cons, hafter, hrules]
    | false =>
      refine ⟨found, after :: remaining, ?_, ?_⟩
      · simp [scanTrustScope, hsatisfy, hscan]
      · rw [List.map_cons, hafter, hremaining]

theorem regexes_verify (crypto : Crypto) (interest : Interest) (signature : SignatureInfo)
    (keyName : Name) (currentTime : ℤ) (validator : CommandInterestValidator) :
    (validator.verify crypto interest signature keyName currentTime).2.regexes =
      validator.regexes := by
  unfold verify
  dsimp only
  split
  · rfl
  · split <;> rfl

theorem exists_attempt_of_scan {library : RegexLibrary} {calls : ℕ} {interest : Interest}
    {validator : CommandInterestValidator} {signature : SignatureInfo} {found : Option Bool}
    {rules : List SecRuleSpecific} (crypto : Crypto) (currentTime : ℤ)
    (hsigner : signer interest.name = .ok (.ok (signature, keyName)))
    (hscan : scanTrustScope library calls interest.name keyName validator.trustScopeForInterest =
      some (found, rules)) :
    ∃ decision next,
      validator.attempt library crypto calls interest currentTime = some (decision, next) ∧
        next.regexes = rules.map SecRuleSpecific.regexes := by
  cases found with
  | none =>
    exact ⟨.ok (.failed ("Signer cannot be authorized for the command: " ++ keyName.toUri)),
      { validator with trustScopeForInterest := rules }, by simp [attempt, hsigner, hscan], rfl⟩
  | some isExempted =>
    cases isExempted with
    | true =>
      exact ⟨.ok .exempted, { validator with trustScopeForInterest := rules },
        by simp [attempt, hsigner, hscan], rfl⟩
    | false =>
      let scanned := { validator with trustScopeForInterest := rules }
      refine ⟨(scanned.verify crypto interest signature keyName currentTime).1,
        (scanned.verify crypto interest signature keyName currentTime).2, ?_, ?_⟩
      · simp [attempt, hsigner, hscan, scanned]
      · rw [regexes_verify]
        rfl

/-- A check of an Interest returns with enough depth, and keeps the regular expressions. -/
theorem exists_depth_checkPolicy (crypto : Crypto)
    (regexes : List (RegexTopMatcher × Option RegexTopMatcher)) (interest : Interest)
    (currentTime : ℤ) :
    ∃ depth, ∀ calls ≥ depth, ∀ validator : CommandInterestValidator,
      validator.regexes = regexes → ∃ decision outcome next,
        validator.checkPolicy library crypto calls interest currentTime =
          some (decision, outcome, next) ∧ next.regexes = regexes := by
  by_cases hlength : interest.name.length < minLength
  · refine ⟨0, ?_⟩
    intro calls _ validator hregexes
    exact ⟨_, _, validator, by rw [checkPolicy, if_pos hlength], hregexes⟩
  · have hattempt : ∃ depth, ∀ calls ≥ depth, ∀ validator : CommandInterestValidator,
        validator.regexes = regexes → ∃ decision next,
          validator.attempt library crypto calls interest currentTime = some (decision, next) ∧
            next.regexes = regexes := by
      cases hsigner : signer interest.name with
      | error error =>
        refine ⟨0, ?_⟩
        intro calls _ validator hregexes
        exact ⟨_, validator, by rw [attempt, hsigner], hregexes⟩
      | ok signed =>
        cases signed with
        | error failureInfo =>
          refine ⟨0, ?_⟩
          intro calls _ validator hregexes
          exact ⟨_, validator, by rw [attempt, hsigner], hregexes⟩
        | ok signed =>
          obtain ⟨depth, hdepth⟩ :=
            exists_depth_scanTrustScope library regexes interest.name signed.2
          refine ⟨depth, ?_⟩
          intro calls hcalls validator hregexes
          obtain ⟨found, rules, hscan, hrules⟩ :=
            hdepth calls hcalls validator.trustScopeForInterest hregexes
          obtain ⟨decision, next, hattempt, hnext⟩ :=
            exists_attempt_of_scan crypto currentTime hsigner hscan
          exact ⟨decision, next, hattempt, hnext.trans hrules⟩
    obtain ⟨depth, hdepth⟩ := hattempt
    refine ⟨depth, ?_⟩
    intro calls hcalls validator hregexes
    obtain ⟨decision, next, hdecided, hnext⟩ := hdepth calls hcalls validator hregexes
    exact ⟨decision, report decision, next, by simp [checkPolicy, hlength, hdecided], hnext⟩

/-- What a rule adds to the regular expressions does not depend on the validator. -/
theorem exists_regexes_addInterestRule (regex : List Char) (keyName : Name) (publicKey : PublicKey) :
    ∃ added, ∀ validator : CommandInterestValidator,
      (validator.addInterestRule library regex keyName publicKey).2.regexes =
        validator.regexes ++ added := by
  cases hcompile : RegexTopMatcher.compile library regex with
  | error error =>
    refine ⟨[], fun validator ↦ ?_⟩
    simp [addInterestRule, hcompile, regexes]
  | ok interestRegex =>
    cases hfromName : RegexTopMatcher.fromName library keyName true with
    | error error =>
      refine ⟨[], fun validator ↦ ?_⟩
      simp [addInterestRule, hcompile, hfromName, regexes]
    | ok signerRegex =>
      refine ⟨[(interestRegex, some signerRegex)], fun validator ↦ ?_⟩
      simp [addInterestRule, hcompile, hfromName, regexes, SecRuleSpecific.regexes,
        SecRuleSpecific.Matcher.create]

theorem exists_regexes_addInterestRuleOfCertificate (regex : List Char) (certificateName : Name)
    (publicKeyInfo : PublicKey) :
    ∃ added, ∀ validator : CommandInterestValidator,
      (validator.addInterestRuleOfCertificate library regex certificateName
        publicKeyInfo).2.regexes = validator.regexes ++ added := by
  cases hkey : certificateNameToPublicKeyName certificateName with
  | error error =>
    refine ⟨[], fun validator ↦ ?_⟩
    simp [addInterestRuleOfCertificate, hkey]
  | ok keyName =>
    obtain ⟨added, hadded⟩ := exists_regexes_addInterestRule library regex keyName publicKeyInfo
    refine ⟨added, fun validator ↦ ?_⟩
    rw [← hadded]
    simp [addInterestRuleOfCertificate, hkey]

theorem exists_regexes_addInterestBypassRule (regex : List Char) :
    ∃ added, ∀ validator : CommandInterestValidator,
      (validator.addInterestBypassRule library regex).2.regexes = validator.regexes ++ added := by
  cases hcompile : RegexTopMatcher.compile library regex with
  | error error =>
    refine ⟨[], fun validator ↦ ?_⟩
    simp [addInterestBypassRule, hcompile]
  | ok interestRegex =>
    refine ⟨[(interestRegex, none)], fun validator ↦ ?_⟩
    simp [addInterestBypassRule, hcompile, regexes, SecRuleSpecific.regexes,
      SecRuleSpecific.Matcher.create]

namespace History

theorem exists_depth_configure {shaped : List (RegexTopMatcher × Option RegexTopMatcher)}
    {configured : CommandInterestValidator → CommandInterestValidator}
    (next : List (RegexTopMatcher × Option RegexTopMatcher))
    (hnext : ∀ validator, validator.regexes = shaped → (configured validator).regexes = next) :
    ∃ depth next, ∀ calls : ℕ, calls ≥ depth → ∀ history : History,
      history.validator.regexes = shaped →
      ∃ after, history.configure (configured history.validator) = some after ∧
        after.validator.regexes = next :=
  ⟨0, next, fun _ _ history hshaped ↦ ⟨_, rfl, hnext history.validator hshaped⟩⟩

/-- Every call returns with enough depth. -/
theorem exists_depth_step (crypto : Crypto)
    (shaped : List (RegexTopMatcher × Option RegexTopMatcher)) (event : Event) :
    ∃ depth next, ∀ calls ≥ depth, ∀ history : History, history.validator.regexes = shaped →
      ∃ after, history.step library crypto calls event = some after ∧
        after.validator.regexes = next := by
  cases event with
  | addInterestRule regex keyName publicKey =>
    obtain ⟨added, hadded⟩ := exists_regexes_addInterestRule library regex keyName publicKey
    exact exists_depth_configure (shaped ++ added) fun validator hshaped ↦ by rw [hadded, hshaped]
  | addInterestRuleOfCertificate regex certificateName publicKeyInfo =>
    obtain ⟨added, hadded⟩ :=
      exists_regexes_addInterestRuleOfCertificate library regex certificateName publicKeyInfo
    exact exists_depth_configure (shaped ++ added) fun validator hshaped ↦ by rw [hadded, hshaped]
  | addInterestBypassRule regex =>
    obtain ⟨added, hadded⟩ := exists_regexes_addInterestBypassRule library regex
    exact exists_depth_configure (shaped ++ added) fun validator hshaped ↦ by rw [hadded, hshaped]
  | reset => exact exists_depth_configure [] fun validator _ ↦ rfl
  | checkPolicy interest currentTime =>
    obtain ⟨depth, hdepth⟩ := exists_depth_checkPolicy library crypto shaped interest currentTime
    refine ⟨depth, shaped, ?_⟩
    intro calls hcalls history hshaped
    obtain ⟨decision, outcome, validator, hcheck, hregexes⟩ :=
      hdepth calls hcalls history.validator hshaped
    exact ⟨⟨validator, history.checks ++ [⟨interest, decision, outcome⟩]⟩,
      by simp [step, hcheck], hregexes⟩

end History

/-! ## Whole runs -/

end CommandInterestValidator

end NdnCxx
