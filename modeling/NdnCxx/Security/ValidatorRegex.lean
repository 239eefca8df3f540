import NdnCxx.Packet.InterestWire
import NdnCxx.Security.IdentityCertificate

/-!
# The validator with regular-expression rules

`ValidatorRegex` with the parts of `Validator` and `CertificateCacheTtl` it is run by. A Data packet
that is not signed under a known key waits for the certificate that its key locator names; the
callbacks of that certificate's own validation are bound to the packet and its callbacks, so they
are lists of waiting packets that end in the callbacks of a caller. Every callback is called last.

The rules are asked through the virtual `SecRule::satisfy`. It may throw, and it may change the rule
objects, which keep the last results of their regular expressions, so it is a parameter over the
states of these objects. The answers to Interests, the clocks and the removals that the cache has
scheduled are events. The state also keeps a record of the checks, calls and exceptions so far.
-/

namespace NdnCxx

open Validation

/-- A `ValidatorRegex` with its rules, and whether it has a face and a certificate cache. -/
structure ValidatorRegex (Rule Objects : Type*) where
  library : CertificateLibrary
  satisfy : Rule → Packet.Data → Objects → Except Thrown Bool × Objects
  mustFailVerify : List Rule
  verifyPolicies : List Rule
  stepLimit : ℤ
  hasFace : Bool
  hasCertificateCache : Bool
  /-- in milliseconds -/
  defaultTtl : ℤ

/-- `Validator::verifySignature(const Data&, const Signature&, const PublicKey&)`. The sizes of the
wire and of the signature value are taken first, which throws for a packet without them. -/
def Validation.CertificateLibrary.verifySignature (library : CertificateLibrary) (data : Packet.Data)
    (key : PublicKeyInfo) : Except Error Bool := do
  let (_, encoded) ← data.wireEncode
  let value := encoded.signature.value
  let _size ← Block.Element.size ⟨value.type, value.content⟩
  return library.verifies data key

namespace ValidatorRegex

/-- `onValidated` and `onValidationFailed`: those of a caller of `validate`, or those bound to the
packet that waits for a certificate and to its callbacks. -/
inductive Callbacks
  | user (validation : ℕ)
  | key (data : Packet.Data) (outer : Callbacks)
  deriving DecidableEq

/-- A `ValidationRequest`, with the packet and the callbacks that its own are bound to. -/
structure Request where
  keyLocatorName : Name
  data : Packet.Data
  outer : Callbacks
  nSteps : ℤ
  deriving DecidableEq

/-- `m_onDataValidated` and `m_onDataValidationFailed` -/
def Request.callbacks (request : Request) : Callbacks := .key request.data request.outer

def nRetries : ℕ := 3

/-- An expressed Interest that has not been answered. -/
structure Pending where
  request : Request
  remainingRetries : ℕ
  deriving DecidableEq

/-- A call of a callback of the caller of `validate`. -/
structure Report where
  validation : ℕ
  data : Packet.Data
  call : Call
  deriving DecidableEq

/-- The state of a validator: the rule objects, `m_trustAnchors`, where an absent key may have a null
pointer, the cache with the time of each removal, the two clocks in nanoseconds, and the outstanding
Interests. What follows is the record: the policy checks with the rule objects they started from, the
packets reported as validated to any callback and when, the calls of callers' callbacks, the
validations that Interests were expressed for, and the exceptions that were not caught. -/
structure State (Objects : Type*) where
  objects : Objects
  trustAnchors : OrderedMap Name (Option Validation.IdentityCertificate) (· < ·)
  certificateCache : OrderedMap Name (Validation.IdentityCertificate × ℤ) (· < ·)
  now : ℤ
  uptime : ℤ
  pending : List Pending
  nextValidation : ℕ
  checked : List (Packet.Data × Objects)
  validated : List (Packet.Data × ℤ)
  reports : List Report
  expressed : List ℕ
  escaped : List Thrown

abbrev Result (Objects : Type*) := State Objects × Option Thrown

def addTrustAnchor (trustAnchors : OrderedMap Name (Option Validation.IdentityCertificate) (· < ·))
    (certificate : Validation.IdentityCertificate) :
    OrderedMap Name (Option Validation.IdentityCertificate) (· < ·) :=
  trustAnchors.assign (certificate.data.name.getPrefix (-1)) (some certificate)

def initial {Objects : Type*} (anchors : List Validation.IdentityCertificate) (objects : Objects)
    (now : ℤ) : State Objects where
  objects := objects
  trustAnchors := anchors.foldl addTrustAnchor OrderedMap.empty
  certificateCache := OrderedMap.empty
  now := now
  uptime := 0
  pending := []
  nextValidation := 0
  checked := []
  validated := []
  reports := []
  expressed := []
  escaped := []

variable {Rule Objects : Type*} (validator : ValidatorRegex Rule Objects)

/-! ## Callbacks -/

/-- Call `onValidationFailed`; `onCertificateValidationFailed` passes the text on. -/
def Callbacks.failed : Callbacks → Packet.Data → String → State Objects → State Objects
  | .user validation, data, info, state =>
      { state with reports := state.reports ++ [⟨validation, data, .failed info⟩] }
  | .key data outer, _, info, state => outer.failed data info state

/-- How long `CertificateCacheTtl::insert` keeps a certificate, in milliseconds -/
def expire (certificate : Validation.IdentityCertificate) : ℤ :=
  if certificate.data.metaInfo.freshnessPeriod ≥ 0 then certificate.data.metaInfo.freshnessPeriod
  else validator.defaultTtl

/-- `CertificateCacheTtl::insertCertificate`, of the cache if there is one. An event that was
scheduled before for the same index is cancelled. -/
def insertCertificate (certificate : Validation.IdentityCertificate) (state : State Objects) :
    State Objects :=
  if validator.hasCertificateCache then
    { state with
      certificateCache := state.certificateCache.assign (certificate.data.name.getPrefix (-1))
        (certificate, state.uptime + validator.expire certificate * 1000000) }
  else state

def verifySignature (data : Packet.Data) (key : PublicKeyInfo) : Except Error Bool :=
  if !data.signature.info.hasKeyLocator then .ok false
  else validator.library.verifySignature data key

def onCertificateValidated (signCertificate data : Packet.Data)
    (onValidated : Packet.Data → State Objects → Result Objects)
    (onValidationFailed : Packet.Data → String → State Objects → State Objects)
    (state : State Objects) : Result Objects :=
  match Validation.IdentityCertificate.ofData validator.library signCertificate with
  | .error thrown => (state, some thrown)
  | .ok certificate =>
      if !certificate.isTooLate state.now && !certificate.isTooEarly state.now then
        let inserted := validator.insertCertificate certificate state
        match validator.verifySignature data certificate.publicKeyInfo with
        | .error error => (inserted, some (.error error))
        | .ok true => onValidated data inserted
        | .ok false =>
            (onValidationFailed data ("Cannot verify signature: " ++ data.name.toUri) inserted, none)
      else
        (onValidationFailed data
          ("Signing certificate " ++ signCertificate.name.toUri ++ " is no longer valid.") state,
          none)

def Callbacks.validated : Callbacks → Packet.Data → State Objects → Result Objects
  | .user validation, data, state =>
      ({ state with
        validated := state.validated ++ [(data, state.now)]
        reports := state.reports ++ [⟨validation, data, .validated⟩] }, none)
  | .key data outer, signCertificate, state =>
      validator.onCertificateValidated signCertificate data outer.validated outer.failed
        { state with validated := state.validated ++ [(signCertificate, state.now)] }

/-! ## Policy -/

def anySatisfied (data : Packet.Data) : List Rule → Objects → Except Thrown Bool × Objects
  | [], objects => (.ok false, objects)
  | rule :: rules, objects =>
      match validator.satisfy rule data objects with
      | (.ok false, next) => anySatisfied data rules next
      | (answer, next) => (answer, next)

/-- The trusted certificate of a name. Without a cache an absent trust anchor is looked up by
`operator[]`, which inserts a null pointer. -/
def findCertificate (keyLocatorName : Name) (state : State Objects) :
    Option Validation.IdentityCertificate × State Objects :=
  match state.trustAnchors.find keyLocatorName with
  | some certificate => (certificate, state)
  | none =>
      if validator.hasCertificateCache then
        ((state.certificateCache.find keyLocatorName).map Prod.fst, state)
      else
        (none, { state with trustAnchors := state.trustAnchors.assign keyLocatorName none })

/-- The body of the `try` of `checkPolicy`, with the requests for next steps. Behind the two checks
neither `getKeyLocator` nor `getName` throws. -/
def followKeyLocator (data : Packet.Data) (nSteps : ℤ) (callbacks : Callbacks)
    (state : State Objects) : Result Objects × List Request :=
  if !data.signature.info.hasKeyLocator then
    ((callbacks.failed data ("Key Locator is missing in Data packet: " ++ data.name.toUri) state,
      none), [])
  else if data.signature.info.keyLocator.type ≠ .name then
    ((callbacks.failed data ("Key Locator is not a name: " ++ data.name.toUri) state, none), [])
  else
    let keyLocatorName := data.signature.info.keyLocator.name
    match validator.findCertificate keyLocatorName state with
    | (some trustedCert, next) =>
        match validator.library.verifySignature data trustedCert.publicKeyInfo with
        | .error error => ((next, some (.error error)), [])
        | .ok true => (callbacks.validated validator data next, [])
        | .ok false =>
            ((callbacks.failed data ("Cannot verify signature: " ++ data.name.toUri) next, none), [])
    | (none, next) => ((next, none), [⟨keyLocatorName, data, callbacks, nSteps + 1⟩])

/-- The handlers of `checkPolicy`. -/
def handle (data : Packet.Data) (callbacks : Callbacks)
    (outcome : Result Objects × List Request) : Result Objects × List Request :=
  match outcome with
  | ((state, some (.error error)), nextSteps) =>
      if error.kind = .keyLocator then
        ((callbacks.failed data ("Key Locator is not a name: " ++ data.name.toUri) state, none),
          nextSteps)
      else if error.isTlvError then
        ((callbacks.failed data "Cannot decode signature" state, none), nextSteps)
      else outcome
  | _ => outcome

/-- `ValidatorRegex::checkPolicy`; the rules are asked outside its `try`. -/
def checkPolicy (data : Packet.Data) (nSteps : ℤ) (callbacks : Callbacks) (state : State Objects) :
    Result Objects × List Request :=
  if validator.stepLimit = nSteps then
    ((callbacks.failed data ("Maximum steps of validation reached: " ++ data.name.toUri) state,
      none), [])
  else
    let started := { state with checked := state.checked ++ [(data, state.objects)] }
    match validator.anySatisfied data validator.mustFailVerify state.objects with
    | (.error thrown, objects) => (({ started with objects := objects }, some thrown), [])
    | (.ok true, objects) =>
        ((callbacks.failed data ("Comply with mustFail policy: " ++ data.name.toUri)
          { started with objects := objects }, none), [])
    | (.ok false, objects) =>
        match validator.anySatisfied data validator.verifyPolicies objects with
        | (.error thrown, objects) => (({ started with objects := objects }, some thrown), [])
        | (.ok true, objects) =>
            handle data callbacks
              (validator.followKeyLocator data nSteps callbacks { started with objects := objects })
        | (.ok false, objects) =>
            ((callbacks.failed data ("No policy found for data: " ++ data.name.toUri)
              { started with objects := objects }, none), [])

/-! ## Validation -/

/-- The call of `validate` whose callbacks are reached in the end. -/
def Callbacks.validation : Callbacks → ℕ
  | .user validation => validation
  | .key _ outer => outer.validation

/-- A failure reaches the caller's callback with its text. -/
theorem Callbacks.failed_eq (callbacks : Callbacks) (data : Packet.Data) (info : String)
    (state : State Objects) :
    ∃ reported, callbacks.failed data info state =
      { state with
        reports := state.reports ++ [⟨callbacks.validation, reported, .failed info⟩] } := by
  induction callbacks generalizing data with
  | user validation => exact ⟨data, rfl⟩
  | key waiting outer ih => exact ih waiting

def interestWire (keyLocatorName : Name) (nonce : UInt32) : Bytes :=
  Tlv.prependByteArrayBlock Tlv.interest
    (keyLocatorName.wireEncode ++ (Packet.Interest.nonceBlock nonce).wire)

/-- `Face::expressInterest`, which throws for an Interest that is too large; the nonce does not
matter for the size. -/
def expressInterest (request : Request) (remainingRetries : ℕ) (state : State Objects) :
    Result Objects :=
  if (interestWire request.keyLocatorName 0).length > Tlv.maxNdnPacketSize then
    (state, some (.other "Interest size exceeds maximum limit"))
  else
    ({ state with
      pending := state.pending ++ [⟨request, remainingRetries⟩]
      expressed := state.expressed ++ [request.outer.validation] }, none)

/-- The loop of `Validator::afterCheckPolicy` -/
def expressAll : List Request → State Objects → Result Objects
  | [], state => (state, none)
  | request :: requests, state =>
      match expressInterest request nRetries state with
      | (next, none) => expressAll requests next
      | (next, some thrown) => (next, some thrown)

/-- `Validator::afterCheckPolicy`, where `onFailure` is bound to the packet and its callbacks -/
def afterCheckPolicy (data : Packet.Data) (callbacks : Callbacks) (nextSteps : List Request)
    (state : State Objects) : Result Objects :=
  if !validator.hasFace then
    (callbacks.failed data "Require more information to validate the packet!" state, none)
  else expressAll nextSteps state

def validate (data : Packet.Data) (nSteps : ℤ) (callbacks : Callbacks) (state : State Objects) :
    Result Objects :=
  match validator.checkPolicy data nSteps callbacks state with
  | ((next, some thrown), _) => (next, some thrown)
  | ((next, none), nextSteps) =>
      if nextSteps.isEmpty then (next, none)
      else validator.afterCheckPolicy data callbacks nextSteps next

/-- `Validator::onData`; `preCertificateValidation` is not overridden. -/
def onData (request : Request) (data : Packet.Data) (state : State Objects) : Result Objects :=
  validator.validate data request.nSteps request.callbacks state

/-- `Validator::onTimeout`, which is also called for a Nack -/
def onTimeout (pending : Pending) (state : State Objects) : Result Objects :=
  if pending.remainingRetries > 0 then
    expressInterest pending.request (pending.remainingRetries - 1) state
  else
    (pending.request.outer.failed pending.request.data
      ("Cannot fetch cert: " ++ pending.request.keyLocatorName.toUri) state, none)

/-! ## Runs -/

/-- A call of `validate`, a Data packet or a timeout for an outstanding Interest, readings of the two
clocks, and the removal that is scheduled for an index of the cache. -/
inductive Event
  | validate (data : Packet.Data)
  | answer (position : ℕ) (data : Packet.Data)
  | timeout (position : ℕ)
  | setClock (now : ℤ)
  | elapse (duration : ℕ)
  | remove (index : Name)
  deriving DecidableEq

/-- Record the exception that a call ends with. -/
def settle (result : Result Objects) : State Objects :=
  { result.1 with escaped := result.1.escaped ++ result.2.toList }

/-- One event. The face removes an Interest before it calls back. -/
def step (state : State Objects) : Event → Option (State Objects)
  | .validate data =>
      some (settle (validator.validate data 0 (.user state.nextValidation)
        { state with nextValidation := state.nextValidation + 1 }))
  | .answer position data =>
      (state.pending[position]?).map fun pending ↦
        settle (validator.onData pending.request data
          { state with pending := state.pending.eraseIdx position })
  | .timeout position =>
      (state.pending[position]?).map fun pending ↦
        settle (onTimeout pending { state with pending := state.pending.eraseIdx position })
  | .setClock now => some { state with now := now }
  | .elapse duration => some { state with uptime := state.uptime + duration }
  | .remove index =>
      match state.certificateCache.find index with
      | none => none
      | some (_, removal) =>
          if removal ≤ state.uptime then
            some { state with certificateCache := state.certificateCache.eraseKey index }
          else none

/-! ## A validator that accepts everything -/

/-- One rule that every packet satisfies, and libraries that find the same certificate in every
content and verify every signature. -/
def permissive (certificate : DerCertificate) : ValidatorRegex Unit Unit where
  library :=
    { readDer := fun _ ↦ certificate
      fromIsoString := fun _ ↦ .ok 0
      verifies := fun _ _ ↦ true }
  satisfy _ _ objects := (.ok true, objects)
  mustFailVerify := []
  verifyPolicies := [()]
  stepLimit := 3
  hasFace := true
  hasCertificateCache := true
  defaultTtl := 3600000

/-- A certificate that is valid at the time zero, for a key of an algorithm. -/
def certificateOf (algorithm : List ℕ) : DerCertificate where
  notBefore := some ⟨DerTime.generalizedTime, "19700101000000Z".toList⟩
  notAfter := some ⟨DerTime.generalizedTime, "19700101000000Z".toList⟩
  isSubjectReadable := true
  subjectPublicKeyInfo := some ([], algorithm)
  isRestReadable := true

def rsaCertificate : DerCertificate := certificateOf PublicKeyInfo.rsa

def certificateName (key : UInt8) : Name :=
  [.generic [0x4b, 0x45, 0x59], .generic [key],
    .generic [0x49, 0x44, 0x2d, 0x43, 0x45, 0x52, 0x54]]

/-- A received packet whose key locator is a name. -/
def signedBy (name signer : Name) : Packet.Data where
  name := name
  signature :=
    { info :=
        { type := 1, hasKeyLocator := true, keyLocator := { type := .name, name := signer } }
      value := ⟨Tlv.signatureValue, .value [0], []⟩ }
  wire := some []

def signedData : Packet.Data := signedBy [.generic [0x64]] (certificateName 0x6b)

def signerCertificate : Packet.Data :=
  signedBy (certificateName 0x6b ++ [.generic [0x31]]) (certificateName 0x72)

def rootAnchor : Validation.IdentityCertificate where
  data := signedBy (certificateName 0x72 ++ [.generic [0x31]]) (certificateName 0x72)
  notBefore := 0
  notAfter := 0
  publicKeyInfo := ⟨.rsa, []⟩
  publicKeyName := [.generic [0x72]]

end ValidatorRegex

end NdnCxx
