import NdnCxx.Security.ConfigSection
import NdnCxx.Security.ValidatorConfig

/-!
# Loading a configuration

The state of a `ValidatorConfig`: what it was constructed with, the rules, anchors and containers that
`load` sets up, the certificate cache and the recorded timestamps. A section may throw after it has
changed part of the state, so the operations return the state together with the exception. Files and
the clock are those of the moment.
-/

namespace NdnCxx

/-- `ValidatorConfig::DynamicTrustAnchorContainer` -/
structure DynamicTrustAnchorContainer where
  path : String
  isDir : Bool
  lastRefresh : ℤ
  refreshPeriod : ℤ
  certificates : List Certificate
  deriving DecidableEq

namespace DynamicTrustAnchorContainer

/-- The certificates that a directory has, and the exception that reading it ends with. -/
def readDirectory (files : Files) (path : String) : List Certificate × Option Error :=
  let directory := files.directory path
  (directory.paths.filterMap files.load, directory.thrown)

def refresh (files : Files) (container : DynamicTrustAnchorContainer) :
    DynamicTrustAnchorContainer × Option Error :=
  if container.isDir then
    let (certificates, thrown) := readDirectory files container.path
    ({ container with certificates := certificates }, thrown)
  else ({ container with certificates := (files.load container.path).toList }, none)

def isDue (now : ℤ) (container : DynamicTrustAnchorContainer) : Bool :=
  container.lastRefresh + container.refreshPeriod < now

end DynamicTrustAnchorContainer

/-- `m_anchors`, `m_staticContainer` and `m_dynamicContainers` -/
structure TrustAnchors where
  anchors : OrderedMap Name PublicKey (· < ·)
  staticContainer : List Certificate
  dynamicContainers : List DynamicTrustAnchorContainer

namespace TrustAnchors

open DynamicTrustAnchorContainer

def empty : TrustAnchors := ⟨OrderedMap.empty, [], []⟩

/-- An anchor from a file or from base64 text -/
def addStatic (trustAnchors : TrustAnchors) (idCert : Certificate) : TrustAnchors :=
  { trustAnchors with
    anchors := trustAnchors.anchors.assign idCert.keyName idCert.publicKey
    staticContainer := trustAnchors.staticContainer ++ [idCert] }

/-- The anchors of a directory that is read once -/
def addDirectory (trustAnchors : TrustAnchors) (certificates : List Certificate) : TrustAnchors :=
  { trustAnchors with staticContainer := trustAnchors.staticContainer ++ certificates }

/-- A directory that is read again and again, due as soon as the clock goes on -/
def addDynamic (trustAnchors : TrustAnchors) (path : String) (refresh now : ℤ) : TrustAnchors :=
  { trustAnchors with
    dynamicContainers := trustAnchors.dynamicContainers ++ [⟨path, true, now - refresh, refresh, []⟩] }

/-- The certificates of all containers, in the order in which they are written to the anchors. -/
def certificates (trustAnchors : TrustAnchors) : List Certificate :=
  trustAnchors.staticContainer ++
    trustAnchors.dynamicContainers.flatMap DynamicTrustAnchorContainer.certificates

/-- The loop of `refreshAnchors`: whether a container is refreshed, and an exception from reading
one. -/
def refreshLoop (files : Files) (now : ℤ) : List DynamicTrustAnchorContainer →
    List DynamicTrustAnchorContainer × Bool × Option Error
  | [] => ([], false, none)
  | container :: rest =>
      if container.isDue now then
        match container.refresh files with
        | (refreshed, some error) => (refreshed :: rest, true, some error)
        | (refreshed, none) =>
            let (later, _, thrown) := refreshLoop files now rest
            ({ refreshed with lastRefresh := now } :: later, true, thrown)
      else (container :: rest, false, none)

def refreshAnchors (files : Files) (now : ℤ) (trustAnchors : TrustAnchors) :
    TrustAnchors × Option Error :=
  match refreshLoop files now trustAnchors.dynamicContainers with
  | (containers, _, some error) => ({ trustAnchors with dynamicContainers := containers }, some error)
  | (_, false, none) => (trustAnchors, none)
  | (containers, true, none) =>
      let refreshed := { trustAnchors with dynamicContainers := containers }
      ({ refreshed with
          anchors := ConfigSection.byKeyName refreshed.certificates
          dynamicContainers := containers.insertionSort fun first second ↦
            first.lastRefresh ≤ second.lastRefresh }, none)

end TrustAnchors

/-! ## Configuration files -/

/-- `boost::lexical_cast<uint32_t>`: decimal digits with an optional sign. -/
def lexicalCastUint32 (text : List Char) : Option ℕ :=
  let (isNegative, digits) :=
    match text with
    | '-' :: rest => (true, rest)
    | '+' :: rest => (false, rest)
    | _ => (false, text)
  if digits.isEmpty || !digits.all Char.isDigit then none
  else
    let magnitude := digits.foldl (fun number digit ↦ number * 10 + (digit.toNat - '0'.toNat)) 0
    if magnitude < 2 ^ 32 then
      some (if isNegative then (2 ^ 32 - magnitude) % 2 ^ 32 else magnitude)
    else none

def defaultRefreshPeriod : ℤ := 3600 * 10 ^ 9

/-- `ValidatorConfig::getRefreshPeriod`, in the 64-bit nanoseconds of the clock -/
def getRefreshPeriod (inputString : String) : Except LoadError ℤ :=
  let text := inputString.toList
  let nanoseconds (seconds : ℕ) : ℤ := Int.bmod (seconds * 10 ^ 9) (2 ^ 64)
  match lexicalCastUint32 text.dropLast with
  | none => .error (.conf ("Bad number: " ++ String.ofList text.dropLast))
  | some 0 => .ok defaultRefreshPeriod
  | some number =>
      match text.getLast? with
      | some 'h' => .ok (nanoseconds (number * 3600))
      | some 'm' => .ok (nanoseconds (number * 60))
      | some 's' => .ok (nanoseconds number)
      | unit => .error (.conf ("Wrong time unit: " ++ String.ofList unit.toList))

/-- A call of `load` with what it finds: the files, the clock at every section, and whether it runs in
a handler of the `io_service` of the certificate cache. -/
structure Loading where
  configSection : ConfigSection
  filename : String
  engine : RegexEngine
  files : Files
  clock : ℕ → ℤ
  inIoService : Bool

/-- The state of a `ValidatorConfig`, with the resets of its certificate cache that the `io_service`
has yet to run. -/
structure Validator where
  config : ValidatorConfig
  trustAnchors : TrustAnchors
  certificateCache : List (Name × PublicKey)
  postedResets : ℕ
  lastTimestamp : LastTimestampMap

namespace Validator

abbrev Result := Validator × Option LoadError

/-- The constructor -/
def init (stepLimit : ℕ) (graceInterval : ℤ) (maxTrackedKeys : ℕ) (keyTimestampTtl : ℤ) :
    Validator where
  config :=
    { shouldValidate := true
      stepLimit := stepLimit
      interestRules := []
      dataRules := []
      graceInterval := graceInterval
      maxTrackedKeys := maxTrackedKeys
      keyTimestampTtl := keyTimestampTtl }
  trustAnchors := .empty
  certificateCache := []
  postedResets := 0
  lastTimestamp := OrderedMap.empty

/-- `CertificateCacheTtl::removeAll` -/
def removeAll (validator : Validator) : Validator := { validator with certificateCache := [] }

/-- `CertificateCacheTtl::reset`: `dispatch` runs `removeAll` at once in a handler of the `io_service`
and posts it otherwise. -/
def resetCertificateCache (inIoService : Bool) (validator : Validator) : Validator :=
  if inIoService then validator.removeAll
  else { validator with postedResets := validator.postedResets + 1 }

/-- What `reset` clears besides the certificate cache -/
def clear (validator : Validator) : Validator :=
  { validator with
    config := { validator.config with interestRules := [], dataRules := [] }
    trustAnchors := .empty }

def reset (inIoService : Bool) (validator : Validator) : Validator :=
  (validator.resetCertificateCache inIoService).clear

/-- The `io_service` runs a posted reset of the certificate cache, if there is one. -/
def runPostedReset (validator : Validator) : Validator :=
  if validator.postedResets = 0 then validator
  else { validator.removeAll with postedResets := validator.postedResets - 1 }

def onConfigRule (loading : Loading) (validator : Validator) (configSection : ConfigSection) :
    Result :=
  match configSection.createRule loading.engine loading.files loading.filename with
  | .error error => (validator, some error)
  | .ok (true, rule) =>
      ({ validator with
          config := { validator.config with dataRules := validator.config.dataRules ++ [rule] } },
        none)
  | .ok (false, rule) =>
      ({ validator with
          config :=
            { validator.config with interestRules := validator.config.interestRules ++ [rule] } },
        none)

/-- What a `trust-anchor` section does to the anchors, or to the switch that turns validation off. -/
inductive AnchorSection
  | certificate (idCert : Certificate)
  | directory (certificates : List Certificate) (thrown : Option Error)
  | refreshed (path : String) (refresh : ℤ)
  | any

open ConfigSection in
/-- What `onConfigTrustAnchor` reads -/
def createAnchor (loading : Loading) (configSection : ConfigSection) :
    Except LoadError AnchorSection := do
  let (type, rest) ← expect "type" "Expect <trust-anchor.type>!" configSection.properties
  if iequals type.data "file" then
    let (file, rest) ← expect "file-name" "Expect <trust-anchor.file-name>!" rest
    expectEnd "Expect the end of trust-anchor!" rest
    let certfilePath := loading.files.absolute file.data loading.filename
    match loading.files.load certfilePath with
    | some idCert => return .certificate idCert
    | none => .error (.conf ("Cannot read certificate from file: " ++ certfilePath))
  else if iequals type.data "base64" then
    let (text, rest) ← expect "base64-string" "Expect <trust-anchor.base64-string>!" rest
    expectEnd "Expect the end of trust-anchor!" rest
    match loading.files.decode text.data with
    | some idCert => return .certificate idCert
    | none => .error (.conf "Cannot decode certificate from base64-string")
  else if iequals type.data "dir" then
    let (dir, rest) ← expect "dir" "Expect <trust-anchor.dir>" rest
    let dirPath := loading.files.absolute dir.data loading.filename
    if rest.isEmpty then
      let (certificates, thrown) := DynamicTrustAnchorContainer.readDirectory loading.files dirPath
      return .directory certificates thrown
    else
      let (refresh, rest) ← expect "refresh" "Expect <trust-anchor.refresh>!" rest
      let period ← getRefreshPeriod refresh.data
      expectEnd "Expect the end of trust-anchor" rest
      return .refreshed dirPath period
  else if iequals type.data "any" then return .any
  else .error (.conf ("Unsupported trust-anchor.type: " ++ type.data))

def onConfigTrustAnchor (loading : Loading) (index : ℕ) (validator : Validator)
    (configSection : ConfigSection) : Result :=
  match createAnchor loading configSection with
  | .error error => (validator, some error)
  | .ok (.certificate idCert) =>
      ({ validator with trustAnchors := validator.trustAnchors.addStatic idCert }, none)
  | .ok (.directory certificates thrown) =>
      ({ validator with trustAnchors := validator.trustAnchors.addDirectory certificates },
        thrown.map .other)
  | .ok (.refreshed path refresh) =>
      ({ validator with
          trustAnchors := validator.trustAnchors.addDynamic path refresh (loading.clock index) },
        none)
  | .ok .any =>
      ({ validator with config := { validator.config with shouldValidate := false } }, none)

/-- One round of the loop of `load` -/
def onConfigSection (loading : Loading) (index : ℕ) (validator : Validator)
    (named : String × ConfigSection) : Result :=
  if iequals named.1 "rule" then validator.onConfigRule loading named.2
  else if iequals named.1 "trust-anchor" then validator.onConfigTrustAnchor loading index named.2
  else
    (validator, some (.conf ("Error processing configuration file " ++ loading.filename ++
      " unrecognized section: " ++ named.1)))

def loadLoop (loading : Loading) : ℕ → Validator → List (String × ConfigSection) → Result
  | _, validator, [] => (validator, none)
  | index, validator, named :: rest =>
      match validator.onConfigSection loading index named with
      | (next, some error) => (next, some error)
      | (next, none) => loadLoop loading (index + 1) next rest

def load (loading : Loading) (validator : Validator) : Result :=
  let cleared := validator.reset loading.inIoService
  if loading.configSection.properties.isEmpty then
    (cleared, some (.conf ("Error processing configuration file: " ++ loading.filename ++
      " no data")))
  else loadLoop loading 0 cleared loading.configSection.properties

/-! ## Packet checks -/

/-- The signature is one that is looked up among the anchors. -/
def needsAnchors (info : SignatureInfo) : Bool :=
  (info.type == Tlv.signatureSha256WithRsa || info.type == Tlv.signatureSha256WithEcdsa) &&
    match info.keyLocator with
    | some ⟨.name _, _⟩ => true
    | _ => false

/-- The rules leave the decision to such a signature. -/
def rulesNeedAnchors (crypto : Crypto) (rules : List Rule) (packet : Packet)
    (info : SignatureInfo) : Bool :=
  match rules.find? fun rule ↦ rule.isMatch packet with
  | none => false
  | some rule =>
      match (rule.check crypto packet).result with
      | .error _ => false
      | .ok checkResult => checkResult == 0 && needsAnchors info

/-- A packet that is checked, and the readings of the clock in `checkTimestamp`. -/
inductive Check
  | data (data : Data) (nSteps : ℕ)
  | interest (interest : Interest) (nSteps : ℕ) (currentTime cleanTime : ℤ)

def refreshes (crypto : Crypto) (config : ValidatorConfig) : Check → Bool
  | .data data _ =>
      config.shouldValidate &&
        rulesNeedAnchors crypto config.dataRules (.data data) data.signatureInfo
  | .interest interest _ _ _ =>
      config.shouldValidate && decide (SignedInterest.minLength ≤ interest.name.length) &&
        match SignatureInfo.ofInterestName interest.name with
        | .error _ => false
        | .ok info =>
            match info.keyLocator with
            | some ⟨.name keyLocatorName, _⟩ =>
                (certificateNameToPublicKeyName keyLocatorName).toOption.isSome &&
                  rulesNeedAnchors crypto config.interestRules (.interest interest) info
            | _ => false

/-- What a check consults -/
def environment (crypto : Crypto) (files : Files) (now : ℤ) (validator : Validator) :
    Environment where
  crypto := crypto
  refreshAnchors :=
    match validator.trustAnchors.refreshAnchors files now with
    | (refreshed, none) => .ok refreshed.anchors
    | (_, some error) => .error error
  getCertificate name := validator.certificateCache.lookup name

/-- `checkPolicy` at a moment -/
def check (crypto : Crypto) (files : Files) (now : ℤ) (validator : Validator) (checked : Check) :
    Outcome × Validator :=
  let environment := validator.environment crypto files now
  let trustAnchors :=
    if refreshes crypto validator.config checked then
      (validator.trustAnchors.refreshAnchors files now).1
    else validator.trustAnchors
  match checked with
  | .data data nSteps =>
      (validator.config.checkPolicyData environment data nSteps,
        { validator with trustAnchors := trustAnchors })
  | .interest interest nSteps currentTime cleanTime =>
      let (outcome, lastTimestamp) := validator.config.checkPolicyInterest environment interest
        nSteps currentTime cleanTime validator.lastTimestamp
      (outcome, { validator with trustAnchors := trustAnchors, lastTimestamp := lastTimestamp })

end Validator

end NdnCxx
