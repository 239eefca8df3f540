import NdnCxx.Security.ValidatorConfig

/-!
# One decision per policy check

A policy check should end in exactly one of three ways: one call of `onValidated`, one call of
`onValidationFailed`, or one validation request and no call. This module says exactly when
`ValidatorConfig::checkPolicy` does.

Only the first checker of the first matching rule matters. Three things go wrong there.
`Rule::check` moves on to the next checker after a failed one, although the failure was already
reported. A missing key locator is reported without leaving the checker, which then asks for the key
locator; a customized checker lets the resulting exception escape and a fixed-signer checker reports
a second failure. And an expand string that does not fit its pattern throws an exception no handler
catches.
-/

namespace NdnCxx

/-- Exactly one call and no request, or no call and exactly one request, and no exception. -/
def Outcome.IsDecided (outcome : Outcome) : Prop :=
  outcome.thrown = none ∧
    (outcome.calls.length = 1 ∧ outcome.nextSteps = [] ∨
      outcome.calls = [] ∧ outcome.nextSteps.length = 1)

instance (outcome : Outcome) : Decidable outcome.IsDecided :=
  inferInstanceAs (Decidable (_ ∧ _))

/-! ## Conditions on the first checker -/

namespace Checker

/-- The signature has the type the checker asks for, a public-key type, but no key locator. -/
def LacksKeyLocator (checker : Checker) (info : SignatureInfo) : Prop :=
  checker.sigType = info.type ∧ info.type ≠ Tlv.digestSha256 ∧ info.keyLocator = none

/-- An exception of the key-locator checker passes the checker. Data packets have no handler here,
Interests have one for `tlv::Error`. -/
def LetsEscape (checker : Checker) (packet : Packet) (info : SignatureInfo) : Prop :=
  match checker with
  | .fixedSigner _ => False
  | .customized checker =>
      checker.sigType = info.type ∧ info.type ≠ Tlv.digestSha256 ∧
        ∃ keyLocator error, info.keyLocator = some keyLocator ∧
          checker.keyLocatorChecker.check packet keyLocator = .error error ∧
          (∀ interest, packet = .interest interest → error.isTlvError = false)

/-- The checker does not fail the packet: the signature type fits and the key locator is accepted,
or a fixed signer has signed. -/
def Accepts (crypto : Crypto) (checker : Checker) (packet : Packet) (info : SignatureInfo) : Prop :=
  match checker with
  | .customized checker =>
      checker.sigType = info.type ∧ (info.type = Tlv.digestSha256 ∨
        ∃ keyLocator, info.keyLocator = some keyLocator ∧
          checker.keyLocatorChecker.check packet keyLocator = .ok none)
  | .fixedSigner checker =>
      checker.sigType = info.type ∧ ∃ keyLocator keyLocatorName publicKey,
        info.keyLocator = some keyLocator ∧ keyLocator.content = .name keyLocatorName ∧
        checker.signers.find keyLocatorName = some publicKey ∧
        crypto.verifySignature packet info publicKey = true

def IsCustomized : Checker → Prop
  | .customized _ => True
  | .fixedSigner _ => False

end Checker

/-- Refreshing the anchors lets no exception escape from the policy check. -/
def Environment.AnchorsReadable (environment : Environment) (packet : Packet) : Prop :=
  ∀ error, environment.refreshAnchors = .error error →
    (∃ interest, packet = .interest interest) ∧ error.isTlvError = true

/-- The first checker of the rule settles the packet: it neither stumbles over a missing key locator
nor lets an exception escape, it is the only checker if it fails the packet, and if it leaves the
decision to a public key then the anchors can be read. -/
def Rule.Settles (environment : Environment) (rule : Rule) (packet : Packet)
    (info : SignatureInfo) : Prop :=
  ∀ first others, rule.checkers = first :: others →
    ¬ first.LacksKeyLocator info ∧ ¬ first.LetsEscape packet info ∧
    (first.Accepts environment.crypto packet info ∨ others = []) ∧
    (first.IsCustomized → first.Accepts environment.crypto packet info →
      info.type ≠ Tlv.digestSha256 → environment.AnchorsReadable packet)

namespace ValidatorConfig

variable (config : ValidatorConfig) (environment : Environment)

/-- The rule that the packet is checked against, if there is one, settles it. -/
def RulesSettle (rules : List Rule) (packet : Packet) (info : SignatureInfo) : Prop :=
  ∀ rule, rules.find? (fun rule ↦ rule.isMatch packet) = some rule →
    rule.Settles environment packet info

/-- The condition for Data packets. -/
def SettlesData (data : Data) : Prop :=
  config.shouldValidate = true →
    RulesSettle environment config.dataRules (.data data) data.signatureInfo

/-- The condition for Interests: it matters only for those that are signed well enough to reach the
rules. -/
def SettlesInterest (interest : Interest) : Prop :=
  config.shouldValidate = true → SignedInterest.minLength ≤ interest.name.length →
    ∀ info, SignatureInfo.ofInterestName interest.name = .ok info →
    ∀ keyLocator, info.keyLocator = some keyLocator →
    ∀ keyLocatorName, keyLocator.content = .name keyLocatorName →
    ∀ keyName, certificateNameToPublicKeyName keyLocatorName = .ok keyName →
      RulesSettle environment config.interestRules (.interest interest) info

end ValidatorConfig

/-! ## Reports of a single checker -/

/-- The signature that the checkers see for a packet. -/
inductive Packet.Carries : Packet → NdnCxx.SignatureInfo → Prop
  | data (data : NdnCxx.Data) : Carries (.data data) data.signatureInfo
  | interest {interest : NdnCxx.Interest} {info : NdnCxx.SignatureInfo}
      (hdecode : NdnCxx.SignatureInfo.ofInterestName interest.name = .ok info) :
      Carries (.interest interest) info

variable {keyLocator : KeyLocator}

theorem KeyLocatorChecker.content_of_check {checker : KeyLocatorChecker} {packet : Packet}
    (hcheck : checker.check packet keyLocator = .ok none) :
    ∃ keyLocatorName, keyLocator.content = .name keyLocatorName := by
  have haccepts : ∃ packetName, checker.accepts packetName keyLocator = .ok true := by
    cases packet with
    | data data =>
      refine ⟨data.name, ?_⟩
      simp only [check, checkName] at hcheck
      grind
    | interest interest =>
      refine ⟨interest.name.getPrefix (-SignedInterest.minLength), ?_⟩
      simp only [check, checkName] at hcheck
      grind
  obtain ⟨packetName, haccepts⟩ := haccepts
  cases hcontent : keyLocator.content with
  | name keyLocatorName => exact ⟨keyLocatorName, rfl⟩
  | none | keyDigest | unknown =>
    cases checker <;> simp [accepts, KeyLocator.getName, hcontent, bind, Except.bind] at haccepts
    split_ifs at haccepts
    all_goals simp [pure, Except.pure] at haccepts

namespace CustomizedChecker

variable {checker : CustomizedChecker} {packet : Packet} {info : SignatureInfo}

theorem checkSignatureInfo_of_ne (htype : checker.sigType ≠ info.type) :
    checker.checkSignatureInfo packet info =
      .reject (signatureTypeMismatch checker.sigType info) := by
  rw [checkSignatureInfo, if_pos htype]

theorem checkSignatureInfo_of_digest (htype : checker.sigType = info.type)
    (hdigest : info.type = Tlv.digestSha256) :
    checker.checkSignatureInfo packet info = ⟨[], .ok 0⟩ := by
  rw [checkSignatureInfo, if_neg (not_not.mpr htype), if_pos hdigest]

/-- With a public-key signature type the checker leaves the switch. -/
theorem checkSignatureType_eq (htype : checker.sigType = info.type)
    (hstrong : info.type ≠ Tlv.digestSha256) :
    checkSignatureType info =
      (if !info.hasKeyLocator then [.failed "Missing KeyLocator in SignatureInfo"] else [],
        none) := by
  have hsupported := checker.isSupported
  rw [htype] at hsupported
  rw [checkSignatureType, if_pos (by tauto)]

theorem checkSignatureInfo_of_missing (checker : CustomizedChecker) (packet : Packet)
    (htype : checker.sigType = info.type) (hstrong : info.type ≠ Tlv.digestSha256)
    (hmissing : info.keyLocator = none) :
    checker.checkSignatureInfo packet info =
      ⟨[.failed "Missing KeyLocator in SignatureInfo"],
        .error ⟨.signatureInfo, "KeyLocator does not exist"⟩⟩ := by
  rw [checkSignatureInfo, if_neg (not_not.mpr htype), if_neg hstrong,
    checkSignatureType_eq htype hstrong]
  simp [SignatureInfo.getKeyLocator, SignatureInfo.hasKeyLocator, hmissing, bind, Except.bind]

theorem checkSignatureInfo_of_present (checker : CustomizedChecker) (packet : Packet)
    (htype : checker.sigType = info.type) (hstrong : info.type ≠ Tlv.digestSha256)
    (hpresent : info.keyLocator = some keyLocator) :
    checker.checkSignatureInfo packet info =
      match checker.keyLocatorChecker.check packet keyLocator with
      | .error error => ⟨[], .error error⟩
      | .ok none => ⟨[], .ok 0⟩
      | .ok (some failInfo) => .reject failInfo := by
  rw [checkSignatureInfo, if_neg (not_not.mpr htype), if_neg hstrong,
    checkSignatureType_eq htype hstrong]
  simp only [SignatureInfo.getKeyLocator, SignatureInfo.hasKeyLocator, hpresent, bind, Except.bind,
    Option.isSome_some, Bool.not_true, Bool.false_eq_true, if_false]
  cases checker.keyLocatorChecker.check packet keyLocator with
  | error error => rfl
  | ok verdict => cases verdict <;> rfl

end CustomizedChecker

namespace FixedSignerChecker

variable {crypto : Crypto} {checker : FixedSignerChecker} {packet : Packet} {info : SignatureInfo}

theorem type_ne_digest (htype : checker.sigType = info.type) : info.type ≠ Tlv.digestSha256 := by
  have hstrong := checker.isStrong
  rw [htype] at hstrong
  rcases hstrong with h | h <;> rw [h] <;> decide

theorem checkSignatureType_eq (htype : checker.sigType = info.type) :
    checkSignatureType info =
      (if !info.hasKeyLocator then [.failed "Missing KeyLocator in SignatureInfo"] else [],
        none) := by
  have hstrong := checker.isStrong
  rw [htype] at hstrong
  rw [checkSignatureType, if_pos hstrong]

theorem checkSignatureInfo_of_ne (htype : checker.sigType ≠ info.type) :
    checker.checkSignatureInfo crypto packet info =
      .reject (signatureTypeMismatch checker.sigType info) := by
  rw [checkSignatureInfo, if_pos htype]

theorem checkSignatureInfo_of_missing (checker : FixedSignerChecker) (crypto : Crypto)
    (packet : Packet) (htype : checker.sigType = info.type) (hmissing : info.keyLocator = none) :
    checker.checkSignatureInfo crypto packet info =
      ⟨[.failed "Missing KeyLocator in SignatureInfo", .failed "Cannot decode signature"],
        .ok (-1)⟩ := by
  rw [checkSignatureInfo, if_neg (not_not.mpr htype), if_neg (type_ne_digest htype),
    checkSignatureType_eq htype]
  simp [SignatureInfo.getKeyLocator, SignatureInfo.hasKeyLocator, hmissing, bind, Except.bind,
    Error.isTlvError, Report.after, Report.reject]

theorem checkSignatureInfo_of_present (checker : FixedSignerChecker) (crypto : Crypto)
    (packet : Packet) (htype : checker.sigType = info.type)
    (hpresent : info.keyLocator = some keyLocator) :
    (∃ keyLocatorName publicKey, keyLocator.content = .name keyLocatorName ∧
      checker.signers.find keyLocatorName = some publicKey ∧
      crypto.verifySignature packet info publicKey = true ∧
      checker.checkSignatureInfo crypto packet info = ⟨[.validated], .ok 1⟩) ∨
    ((¬ ∃ keyLocatorName publicKey, keyLocator.content = .name keyLocatorName ∧
      checker.signers.find keyLocatorName = some publicKey ∧
      crypto.verifySignature packet info publicKey = true) ∧
      ∃ failInfo, checker.checkSignatureInfo crypto packet info = .reject failInfo) := by
  rw [checkSignatureInfo, if_neg (not_not.mpr htype), if_neg (type_ne_digest htype),
    checkSignatureType_eq htype]
  simp only [SignatureInfo.getKeyLocator, SignatureInfo.hasKeyLocator, hpresent, bind, Except.bind,
    Option.isSome_some, Bool.not_true, Bool.false_eq_true, if_false, KeyLocator.getName]
  cases hcontent : keyLocator.content with
  | name keyLocatorName =>
    simp only
    cases hsigner : checker.signers.find keyLocatorName with
    | none => exact Or.inr ⟨by simp [hsigner], _, rfl⟩
    | some publicKey =>
      simp only
      by_cases hverify : crypto.verifySignature packet info publicKey = true
      · exact Or.inl ⟨keyLocatorName, publicKey, rfl, hsigner, hverify, by simp [hverify]⟩
      · exact Or.inr ⟨by simp [hsigner, hverify], "Signature cannot be validated",
          by simp [hverify, Report.after, Report.reject]⟩
  | none | keyDigest | unknown =>
    exact Or.inr ⟨by simp, "KeyLocator does not have name", by simp [Report.after, Report.reject]⟩

end FixedSignerChecker

variable {error : Error} {result : ℤ}

namespace Checker

variable {crypto : Crypto} {checker : Checker} {packet : Packet} {info : SignatureInfo}

theorem check_eq_of_ok (hcarries : packet.Carries info) {report : Report}
    (hreport : checker.checkSignatureInfo crypto packet info = report)
    (hresult : report.result = .ok result) : checker.check crypto packet = report := by
  cases hcarries with
  | data data => exact hreport
  | interest hdecode => simp [check, hdecode, hreport, hresult]

theorem check_eq_of_error (crypto : Crypto) (checker : Checker) (hcarries : packet.Carries info)
    (hreport : checker.checkSignatureInfo crypto packet info = ⟨[], .error error⟩) :
    (∃ interest, packet = .interest interest ∧ error.isTlvError = true ∧
      ∃ failInfo, checker.check crypto packet = .reject failInfo) ∨
    ((∀ interest, packet = .interest interest → error.isTlvError = false) ∧
      checker.check crypto packet = ⟨[], .error error⟩) := by
  cases hcarries with
  | data data => exact Or.inr ⟨by simp, hreport⟩
  | @interest interest info hdecode =>
    simp only [check, hdecode, hreport, check.handle, Report.after, Report.reject, List.nil_append]
    by_cases htlv : error.isTlvError = true
    · exact Or.inl ⟨interest, rfl, htlv, by split_ifs <;> exact ⟨_, rfl⟩⟩
    · have hkind : error.kind ≠ .signature := by
        intro hkind
        simp [Error.isTlvError, hkind] at htlv
      exact Or.inr ⟨by simpa using htlv, by simp [hkind, htlv]⟩

/-- Everything a checker can report about a packet whose signature has the key locator it needs. -/
theorem check_cases (crypto : Crypto) (hcarries : packet.Carries info)
    (hkey : ¬ checker.LacksKeyLocator info) :
    (checker.Accepts crypto packet info ∧ checker.IsCustomized ∧
      checker.check crypto packet = ⟨[], .ok 0⟩ ∧ ¬ checker.LetsEscape packet info) ∨
    (checker.Accepts crypto packet info ∧ ¬ checker.IsCustomized ∧
      checker.check crypto packet = ⟨[.validated], .ok 1⟩ ∧ ¬ checker.LetsEscape packet info) ∨
    (¬ checker.Accepts crypto packet info ∧ ¬ checker.LetsEscape packet info ∧
      ∃ failInfo, checker.check crypto packet = .reject failInfo) ∨
    (checker.LetsEscape packet info ∧ ∃ error,
      (∀ interest, packet = .interest interest → error.isTlvError = false) ∧
      checker.check crypto packet = ⟨[], .error error⟩) := by
  cases checker with
  | fixedSigner checker =>
    by_cases htype : checker.sigType = info.type
    · obtain ⟨keyLocator, hpresent⟩ : ∃ keyLocator, info.keyLocator = some keyLocator := by
        cases hlocator : info.keyLocator with
        | none => exact absurd ⟨htype, FixedSignerChecker.type_ne_digest htype, hlocator⟩ hkey
        | some keyLocator => exact ⟨keyLocator, rfl⟩
      rcases checker.checkSignatureInfo_of_present crypto packet htype hpresent with
          ⟨keyLocatorName, publicKey, hname, hsigner, hverify, hreport⟩ |
          ⟨hunsigned, failInfo, hreport⟩
      · refine Or.inr (Or.inl ⟨?_, not_false, check_eq_of_ok hcarries hreport rfl, not_false⟩)
        exact ⟨htype, keyLocator, keyLocatorName, publicKey, hpresent, hname, hsigner, hverify⟩
      · refine Or.inr (Or.inr (Or.inl ⟨?_, not_false, failInfo,
          check_eq_of_ok hcarries hreport rfl⟩))
        rintro ⟨-, keyLocator', keyLocatorName, publicKey, hpresent', hname, hsigner, hverify⟩
        obtain rfl : keyLocator = keyLocator' := Option.some.inj (hpresent.symm.trans hpresent')
        exact hunsigned ⟨keyLocatorName, publicKey, hname, hsigner, hverify⟩
    · refine Or.inr (Or.inr (Or.inl ⟨fun haccepts ↦ htype haccepts.1, not_false, _,
        check_eq_of_ok hcarries (FixedSignerChecker.checkSignatureInfo_of_ne htype) rfl⟩))
  | customized checker =>
    by_cases htype : checker.sigType = info.type
    · by_cases hdigest : info.type = Tlv.digestSha256
      · exact Or.inl ⟨⟨htype, Or.inl hdigest⟩, trivial, check_eq_of_ok hcarries
          (CustomizedChecker.checkSignatureInfo_of_digest htype hdigest) rfl,
          fun hescape ↦ hescape.2.1 hdigest⟩
      · obtain ⟨keyLocator, hpresent⟩ : ∃ keyLocator, info.keyLocator = some keyLocator := by
          cases hlocator : info.keyLocator with
          | none => exact absurd ⟨htype, hdigest, hlocator⟩ hkey
          | some keyLocator => exact ⟨keyLocator, rfl⟩
        have hreport := checker.checkSignatureInfo_of_present packet htype hdigest hpresent
        have hescape : LetsEscape (.customized checker) packet info ↔ ∃ error,
            checker.keyLocatorChecker.check packet keyLocator = .error error ∧
              ∀ interest, packet = .interest interest → error.isTlvError = false := by
          simp [LetsEscape, htype, hdigest, hpresent]
        have haccepts : Accepts crypto (.customized checker) packet info ↔
            checker.keyLocatorChecker.check packet keyLocator = .ok none := by
          simp [Accepts, htype, hdigest, hpresent]
        rw [hescape, haccepts]
        cases hcheck : checker.keyLocatorChecker.check packet keyLocator with
        | error error =>
          rw [hcheck] at hreport
          rcases check_eq_of_error crypto (.customized checker) hcarries hreport with
            ⟨interest, hinterest, htlv, failInfo, hresult⟩ | ⟨huncaught, hresult⟩
          · refine Or.inr (Or.inr (Or.inl ⟨by simp, ?_, failInfo, hresult⟩))
            rintro ⟨error', herror, huncaught⟩
            obtain rfl : error = error' := by simpa using herror
            simp [huncaught interest hinterest] at htlv
          · exact Or.inr (Or.inr (Or.inr ⟨⟨error, rfl, huncaught⟩, error, huncaught, hresult⟩))
        | ok verdict =>
          rw [hcheck] at hreport
          cases verdict with
          | none => exact Or.inl ⟨rfl, trivial, check_eq_of_ok hcarries hreport rfl, by simp⟩
          | some failInfo =>
            exact Or.inr (Or.inr (Or.inl ⟨by simp, by simp, failInfo,
              check_eq_of_ok hcarries hreport rfl⟩))
    · refine Or.inr (Or.inr (Or.inl ⟨fun haccepts ↦ htype haccepts.1,
        fun hescape ↦ htype hescape.1, _,
        check_eq_of_ok hcarries (CustomizedChecker.checkSignatureInfo_of_ne htype) rfl⟩))

end Checker

/-! ## Handlers -/

namespace ValidatorConfig

/-- The handlers of the Interest form turn a `tlv::Error` into one more failure. -/
theorem handle_cases (outcome : Outcome) :
    (handle outcome = outcome ∧ ∀ error, outcome.thrown = some error → error.isTlvError = false) ∨
    ∃ error failInfo, outcome.thrown = some error ∧ error.isTlvError = true ∧
      handle outcome = ⟨outcome.calls ++ [.failed failInfo], outcome.nextSteps, none⟩ := by
  unfold handle
  cases hthrown : outcome.thrown with
  | none => exact Or.inl ⟨rfl, by simp⟩
  | some error =>
    simp only
    split_ifs with hsignature hkeyLocator hcertificate htlv
    · exact Or.inr ⟨error, _, rfl, by simp [Error.isTlvError, hsignature], rfl⟩
    · exact Or.inr ⟨error, _, rfl, by simp [Error.isTlvError, hkeyLocator], rfl⟩
    · exact Or.inr ⟨error, _, rfl, by simp [Error.isTlvError, hcertificate], rfl⟩
    · exact Or.inr ⟨error, _, rfl, htlv, rfl⟩
    · exact Or.inl ⟨rfl, by simpa using htlv⟩

/-- Decisions count calls; they do not look at them. -/
theorem isDecided_handle_congr {outcome : Outcome} {calls : List Call}
    (hlength : calls.length = outcome.calls.length) :
    (handle { outcome with calls := calls }).IsDecided ↔ (handle outcome).IsDecided := by
  have hempty : calls = [] ↔ outcome.calls = [] := by
    rw [← List.length_eq_zero_iff, hlength, List.length_eq_zero_iff]
  obtain ⟨oldCalls, nextSteps, thrown⟩ := outcome
  cases thrown with
  | none => simp_all [handle, Outcome.IsDecided]
  | some error =>
    simp only [handle, Outcome.IsDecided]
    split_ifs <;> simp_all

theorem length_throughTimestamp (config : ValidatorConfig) (interestName keyName : Name)
    (currentTime now : ℤ) (calls : List Call) (lastTimestamp : LastTimestampMap) :
    (config.throughTimestamp interestName keyName currentTime now calls lastTimestamp).1.length =
      calls.length := by
  induction calls generalizing lastTimestamp with
  | nil => rfl
  | cons call rest ih => cases call <;> simp [throughTimestamp, ih]

/-- The outcome after the handlers of the packet's form of `checkPolicy`. -/
def IsSettled (outcome : Outcome) : Packet → Prop
  | .data _ => outcome.IsDecided
  | .interest _ => (handle outcome).IsDecided

variable {packet : Packet} {outcome : Outcome}

theorem isSettled_of_isDecided (hdecided : outcome.IsDecided) : IsSettled outcome packet := by
  cases packet with
  | data data => exact hdecided
  | interest interest =>
    have hhandle : handle outcome = outcome := by simp [handle, hdecided.1]
    rw [IsSettled, hhandle]
    exact hdecided

/-- After a call has been made, nothing more may happen. -/
theorem not_isSettled_of_call (hcall : outcome.calls ≠ [])
    (hmore : outcome.thrown ≠ none ∨ 2 ≤ outcome.calls.length ∨ outcome.nextSteps ≠ []) :
    ¬ IsSettled outcome packet := by
  have hlength : 0 < outcome.calls.length := List.length_pos_iff.mpr hcall
  have hraw : ¬ outcome.IsDecided := by
    rintro ⟨hthrown, ⟨hone, hnext⟩ | ⟨hnone, -⟩⟩
    · rcases hmore with h | h | h
      · exact h hthrown
      · omega
      · exact h hnext
    · exact hcall hnone
  cases packet with
  | data data => exact hraw
  | interest interest =>
    rcases handle_cases outcome with ⟨hsame, -⟩ | ⟨error, failInfo, -, -, hhandle⟩
    · rwa [IsSettled, hsame]
    · rw [IsSettled, hhandle]
      rintro ⟨-, ⟨hone, -⟩ | ⟨hnone, -⟩⟩
      · simp at hone
        exact hcall hone
      · simp at hnone

/-- An exception before any call settles the packet only where a handler reports it. -/
theorem isSettled_throw_iff (packet : Packet) :
    IsSettled ⟨[], [], some error⟩ packet ↔
      (∃ interest, packet = .interest interest) ∧ error.isTlvError = true := by
  cases packet with
  | data data => simp [IsSettled, Outcome.IsDecided]
  | interest interest =>
    rcases handle_cases ⟨[], [], some error⟩ with
      ⟨hsame, huncaught⟩ | ⟨error', failInfo, herror, htlv, hhandle⟩
    · rw [IsSettled, hsame]
      simp [Outcome.IsDecided, huncaught error rfl]
    · obtain rfl : error = error' := by simpa using herror
      rw [IsSettled, hhandle]
      simp [Outcome.IsDecided, htlv]

/-! ## The signature check -/

section Signature

variable {config : ValidatorConfig} {environment : Environment} {info : SignatureInfo} {nSteps : ℕ}

/-- Unless the anchors cannot be read, the signature check decides. -/
theorem checkSignature_cases (config : ValidatorConfig) (environment : Environment)
    (packet : Packet) (info : SignatureInfo) (nSteps : ℕ) :
    (config.checkSignature environment packet info nSteps).IsDecided ∨
    ∃ error, environment.refreshAnchors = .error error ∧ info.type ≠ Tlv.digestSha256 ∧
      config.checkSignature environment packet info nSteps = ⟨[], [], some error⟩ := by
  have hcall (call : Call) : (Outcome.call call).IsDecided := by
    simp [Outcome.call, Outcome.IsDecided]
  unfold checkSignature
  by_cases hdigest : info.type = Tlv.digestSha256
  · rw [if_pos hdigest]
    split_ifs <;> exact Or.inl (hcall _)
  · rw [if_neg hdigest]
    by_cases hstrong : info.type = Tlv.signatureSha256WithRsa ∨
        info.type = Tlv.signatureSha256WithEcdsa
    · rw [if_pos hstrong]
      cases info.keyLocator with
      | none => exact Or.inl (hcall _)
      | some keyLocator =>
        cases hcontent : keyLocator.content with
        | none | keyDigest | unknown => simpa [hcontent] using Or.inl (hcall _)
        | name keyLocatorName =>
          cases hanchors : environment.refreshAnchors with
          | error error => exact Or.inr ⟨error, rfl, hdigest, by simp [hcontent]⟩
          | ok anchors =>
            left
            simp only [hcontent]
            split
            · split_ifs <;> exact hcall _
            · split_ifs
              · exact hcall _
              · simp [Outcome.IsDecided]
    · rw [if_neg hstrong]
      exact Or.inl (hcall _)

/-- A public-key signature with a key name leads to the anchors. -/
theorem checkSignature_of_unreadable (config : ValidatorConfig) (packet : Packet) (nSteps : ℕ)
    (hstrong : info.type = Tlv.signatureSha256WithRsa ∨ info.type = Tlv.signatureSha256WithEcdsa)
    (hdigest : info.type ≠ Tlv.digestSha256) {keyLocatorName : Name}
    (hpresent : info.keyLocator = some keyLocator)
    (hcontent : keyLocator.content = .name keyLocatorName)
    (hanchors : environment.refreshAnchors = .error error) :
    config.checkSignature environment packet info nSteps = ⟨[], [], some error⟩ := by
  rw [checkSignature, if_neg hdigest, if_pos hstrong]
  simp [hpresent, hcontent, hanchors]

theorem isSettled_checkSignature_iff {checker : CustomizedChecker}
    (haccepts : Checker.Accepts environment.crypto (.customized checker) packet info) :
    IsSettled (config.checkSignature environment packet info nSteps) packet ↔
      (info.type ≠ Tlv.digestSha256 → environment.AnchorsReadable packet) := by
  rcases checkSignature_cases config environment packet info nSteps with
    hdecided | ⟨error, hanchors, hdigest, hthrow⟩
  · refine iff_of_true (isSettled_of_isDecided hdecided) fun hdigest error hanchors ↦ ?_
    -- the check would have thrown, had the anchors been unreadable
    obtain ⟨htype, h | ⟨keyLocator, hpresent, hcheck⟩⟩ := haccepts
    · exact absurd h hdigest
    · obtain ⟨keyLocatorName, hcontent⟩ := KeyLocatorChecker.content_of_check hcheck
      have hsupported := checker.isSupported
      rw [htype] at hsupported
      have hthrow := checkSignature_of_unreadable config packet nSteps (by tauto) hdigest hpresent
        hcontent hanchors
      rw [hthrow] at hdecided
      simp [Outcome.IsDecided] at hdecided
  · rw [hthrow, isSettled_throw_iff]
    constructor
    · intro hcaught _ error' hanchors'
      obtain rfl : error = error' := by simpa [hanchors] using hanchors'
      exact hcaught
    · intro hreadable
      exact hreadable hdigest error hanchors

end Signature

/-! ## Rules -/

section Rules

variable {config : ValidatorConfig} {environment : Environment} {info : SignatureInfo} {nSteps : ℕ}

/-- A checker that neither passes the packet on nor throws has made a call. -/
theorem calls_ne_nil_of_check {checker : Checker} (hcarries : packet.Carries info)
    (hkey : ∀ interest, packet = .interest interest → info.keyLocator ≠ none)
    (hresult : (checker.check environment.crypto packet).result = .ok result) (hzero : result ≠ 0) :
    (checker.check environment.crypto packet).calls ≠ [] := by
  by_cases hlacks : checker.LacksKeyLocator info
  · cases hcarries with
    | interest => exact absurd hlacks.2.2 (hkey _ rfl)
    | data data =>
      cases checker with
      | customized checker =>
        have hreport := checker.checkSignatureInfo_of_missing (.data data) hlacks.1 hlacks.2.1
          hlacks.2.2
        simp only [Checker.check, Checker.checkSignatureInfo] at hresult
        simp [hreport] at hresult
      | fixedSigner checker =>
        have hreport := checker.checkSignatureInfo_of_missing environment.crypto
          (.data data) hlacks.1 hlacks.2.2
        simp [Checker.check, Checker.checkSignatureInfo, hreport]
  · rcases Checker.check_cases environment.crypto hcarries hlacks with
      ⟨-, -, hreport, -⟩ | ⟨-, -, hreport, -⟩ | ⟨-, -, failInfo, hreport⟩ | ⟨-, error, -, hreport⟩
    · simp [hreport] at hresult
      omega
    · simp [hreport]
    · simp [hreport, Report.reject]
    · simp [hreport] at hresult

theorem calls_ne_nil_of_checkLoop {checkers : List Checker} (hcarries : packet.Carries info)
    (hkey : ∀ interest, packet = .interest interest → info.keyLocator ≠ none)
    (hcheckers : checkers ≠ [])
    (hresult : (Rule.checkLoop environment.crypto packet checkers).result = .ok result)
    (hzero : result ≠ 0) : (Rule.checkLoop environment.crypto packet checkers).calls ≠ [] := by
  cases checkers with
  | nil => exact absurd rfl hcheckers
  | cons checker rest =>
    rw [Rule.checkLoop] at hresult ⊢
    cases hfirst : (checker.check environment.crypto packet).result with
    | error error => simp [hfirst] at hresult
    | ok value =>
      simp only [hfirst] at hresult ⊢
      by_cases hvalue : value ≥ 0
      · rw [if_pos hvalue] at hresult ⊢
        obtain rfl : value = result := by simpa [hfirst] using hresult
        exact calls_ne_nil_of_check hcarries hkey hfirst hzero
      · rw [if_neg hvalue]
        have hcalls := calls_ne_nil_of_check hcarries hkey hfirst (by omega)
        simp [Report.after, hcalls]

/-- Going on after a reported failure cannot lead to a decision. -/
theorem not_isSettled_conclude_after (failInfo : String) (report : Report)
    (hcalls : ∀ result, report.result = .ok result → result ≠ 0 → report.calls ≠ []) :
    ¬ IsSettled (config.conclude environment packet info nSteps (report.after [.failed failInfo]))
      packet := by
  obtain ⟨calls, result⟩ := report
  simp only [Report.after, conclude]
  cases result with
  | error error => exact not_isSettled_of_call (by simp) (Or.inl (by simp))
  | ok result =>
    simp only
    by_cases hzero : result = 0
    · rw [if_pos hzero]
      rcases checkSignature_cases config environment packet info nSteps with
        hdecided | ⟨error, -, -, hthrow⟩
      · apply not_isSettled_of_call (by simp)
        rcases hdecided.2 with ⟨hone, -⟩ | ⟨-, hone⟩
        · right
          left
          simp [hone]
        · right
          right
          exact List.ne_nil_of_length_pos (by simp [hone])
      · exact not_isSettled_of_call (by simp) (Or.inl (by simp [hthrow]))
    · rw [if_neg hzero]
      have hpos : 0 < calls.length := List.length_pos_iff.mpr (hcalls result rfl hzero)
      refine not_isSettled_of_call (by simp) (Or.inr (Or.inl ?_))
      simp only [List.cons_append, List.nil_append, List.length_cons]
      omega

theorem isSettled_conclude_iff {rule : Rule} (hcarries : packet.Carries info)
    (hkey : ∀ interest, packet = .interest interest → info.keyLocator ≠ none) :
    IsSettled (config.conclude environment packet info nSteps
        (rule.check environment.crypto packet)) packet ↔ rule.Settles environment packet info := by
  obtain ⟨first, others, hcheckers⟩ : ∃ first others, rule.checkers = first :: others :=
    List.exists_cons_of_ne_nil rule.checkers_ne_nil
  have hsettles : rule.Settles environment packet info ↔
      ¬ first.LacksKeyLocator info ∧ ¬ first.LetsEscape packet info ∧
      (first.Accepts environment.crypto packet info ∨ others = []) ∧
      (first.IsCustomized → first.Accepts environment.crypto packet info →
        info.type ≠ Tlv.digestSha256 → environment.AnchorsReadable packet) := by
    simp [Rule.Settles, hcheckers]
  rw [hsettles, Rule.check, hcheckers, Rule.checkLoop]
  by_cases hlacks : first.LacksKeyLocator info
  · refine iff_of_false ?_ fun h ↦ h.1 hlacks
    cases hcarries with
    | interest => exact absurd hlacks.2.2 (hkey _ rfl)
    | data data =>
      cases first with
      | customized checker =>
        have hreport := checker.checkSignatureInfo_of_missing (.data data) hlacks.1 hlacks.2.1
          hlacks.2.2
        simp only [Checker.check, Checker.checkSignatureInfo, hreport, conclude]
        exact not_isSettled_of_call (by simp) (Or.inl (by simp))
      | fixedSigner checker =>
        have hreport := checker.checkSignatureInfo_of_missing environment.crypto
          (.data data) hlacks.1 hlacks.2.2
        simp only [Checker.check, Checker.checkSignatureInfo, hreport]
        rw [if_neg (by decide)]
        exact not_isSettled_conclude_after "Missing KeyLocator in SignatureInfo"
          ((Rule.checkLoop environment.crypto (.data data) others).after
            [.failed "Cannot decode signature"]) (by simp [Report.after])
  rcases Checker.check_cases environment.crypto hcarries hlacks with
    ⟨haccepts, hcustomized, hreport, hescape⟩ | ⟨haccepts, hcustomized, hreport, hescape⟩ |
    ⟨hrejects, hescape, failInfo, hreport⟩ | ⟨hescape, error, huncaught, hreport⟩
  · simp only [hreport, ge_iff_le, le_refl, if_true, hlacks, hescape, haccepts, hcustomized,
      not_false_eq_true, true_or, true_and, forall_const, conclude, List.nil_append]
    obtain ⟨checker, rfl⟩ : ∃ checker, first = .customized checker := by
      cases first with
      | customized checker => exact ⟨checker, rfl⟩
      | fixedSigner checker => exact absurd hcustomized id
    exact isSettled_checkSignature_iff haccepts
  · simp only [hreport]
    refine iff_of_true (isSettled_of_isDecided ?_)
      ⟨hlacks, hescape, Or.inl haccepts, fun h ↦ absurd h hcustomized⟩
    simp [conclude, Outcome.IsDecided]
  · simp only [hreport, Report.reject]
    rw [if_neg (by decide)]
    cases others with
    | nil =>
      refine iff_of_true (isSettled_of_isDecided ?_)
        ⟨hlacks, hescape, Or.inr rfl, fun _ h ↦ absurd h hrejects⟩
      simp [Rule.checkLoop, conclude, Report.after, Outcome.IsDecided]
    | cons second rest =>
      refine iff_of_false (not_isSettled_conclude_after _ _ fun result hresult hzero ↦ ?_)
        fun h ↦ by simpa [hrejects] using h.2.2.1
      exact calls_ne_nil_of_checkLoop hcarries hkey (by simp) hresult hzero
  · simp only [hreport]
    refine iff_of_false ?_ fun h ↦ h.2.1 hescape
    rw [conclude, isSettled_throw_iff]
    rintro ⟨⟨interest, hinterest⟩, htlv⟩
    simp [huncaught interest hinterest] at htlv

theorem isSettled_applyRules_iff (config : ValidatorConfig) (environment : Environment) (nSteps : ℕ)
    (rules : List Rule) (hcarries : packet.Carries info)
    (hkey : ∀ interest, packet = .interest interest → info.keyLocator ≠ none) :
    IsSettled (config.applyRules environment rules packet info nSteps) packet ↔
      RulesSettle environment rules packet info := by
  unfold applyRules RulesSettle
  cases rules.find? fun rule ↦ rule.isMatch packet with
  | none => simpa using isSettled_of_isDecided (by simp [Outcome.call, Outcome.IsDecided])
  | some rule => simpa using isSettled_conclude_iff hcarries hkey

end Rules

/-! ## The exact condition -/

theorem isDecided_checkPolicyData_iff (config : ValidatorConfig) (environment : Environment)
    (data : Data) (nSteps : ℕ) :
    (config.checkPolicyData environment data nSteps).IsDecided ↔
      config.SettlesData environment data := by
  unfold checkPolicyData SettlesData
  cases config.shouldValidate with
  | false => simp [Outcome.call, Outcome.IsDecided]
  | true =>
    have hiff := isSettled_applyRules_iff config environment nSteps config.dataRules
      (Packet.Carries.data data) (by simp)
    simpa [IsSettled] using hiff

theorem isDecided_handle_throw (interest : Interest) (htlv : error.isTlvError = true) :
    (handle ⟨[], [], some error⟩).IsDecided :=
  (isSettled_throw_iff (.interest interest)).mpr ⟨⟨interest, rfl⟩, htlv⟩

theorem isDecided_checkPolicyInterest_iff (config : ValidatorConfig) (environment : Environment)
    (interest : Interest) (nSteps : ℕ) (currentTime now : ℤ) (lastTimestamp : LastTimestampMap) :
    (config.checkPolicyInterest environment interest nSteps currentTime now
        lastTimestamp).1.IsDecided ↔
      config.SettlesInterest environment interest := by
  have hcall (call : Call) : (Outcome.call call).IsDecided := by
    simp [Outcome.call, Outcome.IsDecided]
  unfold checkPolicyInterest SettlesInterest
  cases config.shouldValidate with
  | false => simp [hcall]
  | true =>
    simp only [Bool.not_true, Bool.false_eq_true, if_false, forall_const]
    by_cases hshort : interest.name.length < SignedInterest.minLength
    · rw [if_pos hshort]
      exact iff_of_true (hcall _) fun hlong ↦ absurd hshort hlong.not_gt
    rw [if_neg hshort]
    simp only [Nat.not_lt.mp hshort, forall_const]
    cases hdecode : SignatureInfo.ofInterestName interest.name with
    | error error =>
      have htlv := SignatureInfo.ofInterestName_onlyTlvErrors interest.name error hdecode
      exact iff_of_true (isDecided_handle_throw interest htlv) (by simp)
    | ok info =>
      cases hpresent : info.keyLocator with
      | none => exact iff_of_true (by simpa [hpresent] using hcall _) (by simp [hpresent])
      | some keyLocator =>
        cases hcontent : keyLocator.content with
        | none | keyDigest | unknown =>
          exact iff_of_true (by simpa [hpresent, hcontent] using hcall _)
            (by simp [hpresent, hcontent])
        | name keyLocatorName =>
          cases hkeyName : certificateNameToPublicKeyName keyLocatorName with
          | error error =>
            have htlv := certificateNameToPublicKeyName_onlyTlvErrors keyLocatorName error hkeyName
            exact iff_of_true (by simpa [hpresent, hcontent, hkeyName] using
              isDecided_handle_throw interest htlv) (by simp [hpresent, hcontent, hkeyName])
          | ok keyName =>
            have hiff := isSettled_applyRules_iff config environment nSteps config.interestRules
              (Packet.Carries.interest hdecode) (by simp [hpresent])
            rw [IsSettled, ← isDecided_handle_congr (config.length_throughTimestamp interest.name
              keyName currentTime now _ lastTimestamp)] at hiff
            simpa [hpresent, hcontent, hkeyName] using hiff

/-- `checkPolicy` makes exactly one decision about a packet, for Data and for Interests, exactly
when the first checker of the matching rule settles it. -/
theorem isDecided_checkPolicy_iff (config : ValidatorConfig) (environment : Environment)
    (nSteps : ℕ) :
    (∀ data, (config.checkPolicyData environment data nSteps).IsDecided ↔
      config.SettlesData environment data) ∧
    ∀ interest currentTime now lastTimestamp,
      (config.checkPolicyInterest environment interest nSteps currentTime now
        lastTimestamp).1.IsDecided ↔ config.SettlesInterest environment interest :=
  ⟨fun data ↦ isDecided_checkPolicyData_iff config environment data nSteps,
    fun interest ↦ isDecided_checkPolicyInterest_iff config environment interest nSteps⟩

/-! ## Departures -/

def rsaChecker : Checker :=
  .customized
    { sigType := Tlv.signatureSha256WithRsa
      keyLocatorChecker := .relation [.generic [75]] .equal
      isSupported := Tlv.isSupported_signatureSha256WithRsa }

/-- A validator with one rule for all Data packets. -/
def singleRule (checkers : List Checker) (hcheckers : checkers ≠ []) : ValidatorConfig :=
  { shouldValidate := true
    stepLimit := 10
    interestRules := []
    dataRules := [⟨[], checkers, hcheckers⟩]
    graceInterval := 0
    maxTrackedKeys := 1
    keyTimestampTtl := 0 }

/-- Nothing verifies, and there are neither anchors nor cached certificates. -/
def bareEnvironment : Environment :=
  { crypto := ⟨fun _ _ _ ↦ false, fun _ _ ↦ false⟩
    refreshAnchors := .ok OrderedMap.empty
    getCertificate := fun _ ↦ none }

/-- A Data packet with a signature of the given type and no key locator. -/
def bareData (sigType : ℕ) : Data :=
  { name := [.generic [65]], signatureInfo := ⟨sigType, none, []⟩, wire := [] }

/-- An RSA signature without a key locator is reported and then throws; two checkers that both fail
the packet report twice. -/
theorem not_isDecided_checkPolicyData :
    ¬ ((singleRule [rsaChecker] (by simp)).checkPolicyData bareEnvironment
      (bareData Tlv.signatureSha256WithRsa) 0).IsDecided ∧
    ¬ ((singleRule [rsaChecker, rsaChecker] (by simp)).checkPolicyData bareEnvironment
      (bareData Tlv.digestSha256) 0).IsDecided := by
  decide

end ValidatorConfig

end NdnCxx
