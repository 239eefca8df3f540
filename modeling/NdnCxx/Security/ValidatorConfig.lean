import NdnCxx.Security.Conf

/-!
# The configurable validator

`ValidatorConfig::checkPolicy` for Data and Interest packets, with the signature check and the
timestamp check it leads to. The outcome of one synchronous policy check is the list of callback
calls, the validation requests appended to `nextSteps`, and the exception that escapes, if any.

Time points and durations are integers in nanoseconds, the unit of the system clock. Anchors are
read from files when they are refreshed, and the certificate cache is outside the modelled state, so
both enter as parameters.
-/

namespace NdnCxx

/-- The configuration of a `ValidatorConfig`. The time to live is the value of the object that
`m_keyTimestampTtl` refers to, as long as that exists. -/
structure ValidatorConfig where
  shouldValidate : Bool
  stepLimit : ℕ
  interestRules : List Rule
  dataRules : List Rule
  graceInterval : ℤ
  maxTrackedKeys : ℕ
  keyTimestampTtl : ℤ

/-- What the validator consults: cryptography, the anchors after `refreshAnchors`, and the
certificate cache. Reading a directory of anchors can throw. -/
structure Environment where
  crypto : Crypto
  refreshAnchors : Except Error (OrderedMap Name PublicKey (· < ·))
  getCertificate : Name → Option PublicKey

abbrev LastTimestampMap := OrderedMap Name ℤ (· < ·)

/-- A `ValidationRequest`: the Interest for a certificate, its retries and the step count. -/
structure ValidationRequest where
  interest : Interest
  nRetries : ℕ
  nSteps : ℕ
  deriving DecidableEq

/-- Everything observable about one synchronous policy check. -/
structure Outcome where
  calls : List Call
  nextSteps : List ValidationRequest
  thrown : Option Error
  deriving DecidableEq

namespace Outcome

/-- Return after one call. -/
def call (call : Call) : Outcome := ⟨[call], [], none⟩

end Outcome

/-! ## Certificate names -/

/-- `IdentityCertificate::certificateNameToPublicKeyName`: the name up to the last `ID-CERT`,
without its first `KEY`. -/
def certificateNameToPublicKeyName (certificateName : Name) : Except Error Name :=
  let incorrect : Error :=
    ⟨.identityCertificate, "Incorrect identity certificate name " ++ certificateName.toUri⟩
  match certificateName.reverse.findIdx? fun component ↦
      component.toUri = ['I', 'D', '-', 'C', 'E', 'R', 'T'] with
  | none => .error incorrect
  | some fromEnd =>
      let tmpName := certificateName.take (certificateName.length - 1 - fromEnd)
      match tmpName.findIdx? fun component ↦ component.toUri = ['K', 'E', 'Y'] with
      | none => .error incorrect
      | some keyComponentIndex =>
          .ok (tmpName.take keyComponentIndex ++ tmpName.drop (keyComponentIndex + 1))

theorem certificateNameToPublicKeyName_onlyTlvErrors (certificateName : Name) :
    OnlyTlvErrors (certificateNameToPublicKeyName certificateName) := by
  unfold certificateNameToPublicKeyName
  split
  · exact .throw rfl
  · dsimp only
    split
    · exact .throw rfl
    · exact .ok _

namespace ValidatorConfig

variable (config : ValidatorConfig) (environment : Environment)

/-! ## Timestamps -/

/-- `time::fromUnixTimestamp` of a 64-bit number of milliseconds, in the 64-bit nanoseconds of the
clock. -/
def fromUnixTimestamp (milliseconds : ℕ) : ℤ := Int.bmod (milliseconds * 1000000) (2 ^ 64)

/-- The time written in a signed Interest. -/
def interestTime (interestName : Name) : Except Error ℤ := do
  return fromUnixTimestamp
    (← ((interestName.get (-SignedInterest.minLength)).getD Component.empty).toNumber)

theorem interestTime_onlyTlvErrors (interestName : Name) :
    OnlyTlvErrors (interestTime interestName) := by
  refine .bind ?_ fun _ ↦ .ok _
  exact .ite (.throw rfl) (Tlv.readNonNegativeInteger_onlyTlvErrors _ _)

/-- A record that `cleanOldKeys` removes because of its age. -/
def isExpired (now : ℤ) (timestamp : ℤ) : Bool := now - timestamp > config.keyTimestampTtl

/-- The entries that the loop of `cleanOldKeys` leaves. -/
def eraseExpired (now : ℤ) (lastTimestamp : LastTimestampMap) : LastTimestampMap where
  entries := lastTimestamp.entries.filter fun entry ↦ !config.isExpired now entry.2
  sorted := lastTimestamp.sorted.sublist List.filter_sublist

/-- `oldestKeyIt` after the loop of `cleanOldKeys`: it starts at `begin()` and moves to each
remaining entry that is strictly older. -/
def oldestKey (first : Name × ℤ) (remaining : List (Name × ℤ)) : Name :=
  (remaining.foldl (fun oldest entry ↦ if entry.2 < oldest.2 then entry else oldest) first).1

def cleanOldKeys (now : ℤ) (lastTimestamp : LastTimestampMap) : LastTimestampMap :=
  if lastTimestamp.entries.length < config.maxTrackedKeys then lastTimestamp
  else
    match lastTimestamp.entries with
    -- only when no key may be tracked at all
    | [] => lastTimestamp
    | first :: _ =>
        let remaining := config.eraseExpired now lastTimestamp
        if remaining.entries.length ≥ config.maxTrackedKeys then
          remaining.eraseKey (oldestKey first remaining.entries)
        else remaining

/-- `ValidatorConfig::checkTimestamp`. The clock is read once for the check and a second time by
`cleanOldKeys`. -/
def checkTimestamp (interestName keyName : Name) (currentTime now : ℤ)
    (lastTimestamp : LastTimestampMap) : Call × LastTimestampMap :=
  match interestTime interestName with
  -- a component that is no number throws `Component::Error`, which is caught as a `tlv::Error`
  | .error _ => (.failed "Cannot decode signature related TLVs", lastTimestamp)
  | .ok time =>
      match lastTimestamp.find keyName with
      | none =>
          if ¬ (currentTime - config.graceInterval ≤ time ∧
              time ≤ currentTime + config.graceInterval) then
            (.failed ("The command is not in grace interval: " ++ interestName.toUri),
              lastTimestamp)
          else (.validated, (config.cleanOldKeys now lastTimestamp).assign keyName time)
      | some recorded =>
          if time ≤ recorded then
            (.failed ("The command is outdated: " ++ interestName.toUri), lastTimestamp)
          else (.validated, lastTimestamp.setValue keyName time)

/-! ## Signatures -/

def checkSignature (packet : Packet) (info : SignatureInfo) (nSteps : ℕ) : Outcome :=
  if info.type = Tlv.digestSha256 then
    if environment.crypto.verifyDigest packet info then .call .validated
    else .call (.failed "Sha256 Signature cannot be verified!")
  else if info.type = Tlv.signatureSha256WithRsa ∨ info.type = Tlv.signatureSha256WithEcdsa then
    match info.keyLocator with
    | none => .call (.failed "Missing KeyLocator in SignatureInfo")
    | some keyLocator =>
        match keyLocator.content with
        | .name keyLocatorName =>
            match environment.refreshAnchors with
            | .error error => ⟨[], [], some error⟩
            | .ok anchors =>
                match (anchors.find keyLocatorName).or
                  (environment.getCertificate keyLocatorName) with
                | some publicKey =>
                    if environment.crypto.verifySignature packet info publicKey then
                      .call .validated
                    else .call (.failed "Cannot verify signature")
                | none =>
                    if config.stepLimit = nSteps then
                      .call (.failed "Maximum steps of validation reached")
                    else ⟨[], [⟨{ name := keyLocatorName }, 1, nSteps + 1⟩], none⟩
        | _ => .call (.failed "Unsupported KeyLocator type")
  else .call (.failed "Unsupported signature type")

/-! ## Policy -/

/-- What both forms of `checkPolicy` do with the report of the matching rule. -/
def conclude (packet : Packet) (info : SignatureInfo) (nSteps : ℕ) (report : Report) : Outcome :=
  match report.result with
  | .error error => ⟨report.calls, [], some error⟩
  | .ok checkResult =>
      if checkResult = 0 then
        let signature := config.checkSignature environment packet info nSteps
        { signature with calls := report.calls ++ signature.calls }
      else ⟨report.calls, [], none⟩

/-- The rule loop and what follows it, as in both forms of `checkPolicy`. -/
def applyRules (rules : List Rule) (packet : Packet) (info : SignatureInfo) (nSteps : ℕ) :
    Outcome :=
  match rules.find? fun rule ↦ rule.isMatch packet with
  | none => .call (.failed "No rule matched!")
  | some rule =>
      config.conclude environment packet info nSteps (rule.check environment.crypto packet)

/-- `ValidatorConfig::checkPolicy(const Data&, ...)` -/
def checkPolicyData (data : Data) (nSteps : ℕ) : Outcome :=
  if !config.shouldValidate then .call .validated
  else config.applyRules environment config.dataRules (.data data) data.signatureInfo nSteps

/-- Calls of the callback that an Interest's rules are given: validation goes through
`checkTimestamp`. -/
def throughTimestamp (interestName keyName : Name) (currentTime now : ℤ) :
    List Call → LastTimestampMap → List Call × LastTimestampMap
  | [], lastTimestamp => ([], lastTimestamp)
  | .failed info :: rest, lastTimestamp =>
      let (calls, final) := throughTimestamp interestName keyName currentTime now rest lastTimestamp
      (.failed info :: calls, final)
  | .validated :: rest, lastTimestamp =>
      let (call, updated) :=
        config.checkTimestamp interestName keyName currentTime now lastTimestamp
      let (calls, final) := throughTimestamp interestName keyName currentTime now rest updated
      (call :: calls, final)

/-- The handlers around the Interest form of `checkPolicy`. -/
def handle (outcome : Outcome) : Outcome :=
  match outcome.thrown with
  | none => outcome
  | some error =>
      if error.kind = .signature then
        { outcome with calls := outcome.calls ++ [.failed "No valid signature"], thrown := none }
      else if error.kind = .keyLocator then
        { outcome with calls := outcome.calls ++ [.failed "No valid KeyLocator"], thrown := none }
      else if error.kind = .identityCertificate then
        { outcome with
          calls := outcome.calls ++ [.failed "Cannot determine the signing key"], thrown := none }
      else if error.isTlvError then
        { outcome with
          calls := outcome.calls ++ [.failed "Cannot decode signature"]
          thrown := none }
      else outcome

/-- `ValidatorConfig::checkPolicy(const Interest&, ...)` -/
def checkPolicyInterest (interest : Interest) (nSteps : ℕ) (currentTime now : ℤ)
    (lastTimestamp : LastTimestampMap) : Outcome × LastTimestampMap :=
  if !config.shouldValidate then (.call .validated, lastTimestamp)
  else if interest.name.length < SignedInterest.minLength then
    (.call (.failed ("Interest is not signed: " ++ interest.name.toUri)), lastTimestamp)
  else
    match SignatureInfo.ofInterestName interest.name with
    | .error error => (handle ⟨[], [], some error⟩, lastTimestamp)
    | .ok info =>
        match info.keyLocator with
        | none => (.call (.failed "No valid KeyLocator"), lastTimestamp)
        | some keyLocator =>
            match keyLocator.content with
            | .name keyLocatorName =>
                match certificateNameToPublicKeyName keyLocatorName with
                | .error error => (handle ⟨[], [], some error⟩, lastTimestamp)
                | .ok keyName =>
                    let outcome := config.applyRules environment config.interestRules
                      (.interest interest) info nSteps
                    let (calls, updated) := config.throughTimestamp interest.name keyName
                      currentTime now outcome.calls lastTimestamp
                    (handle { outcome with calls := calls }, updated)
            | _ => (.call (.failed "Key Locator is not a name"), lastTimestamp)

end ValidatorConfig

end NdnCxx
