import NdnCxx.Packet.Interest

/-!
# Rules of the validator configuration

The filters, key-locator checkers, checkers and rules of `security/conf`. A checker reports through
the two callbacks of the caller, so the model of `check` returns the calls it made, in order,
together with the value it returned or the exception it let escape.

The regular-expression engine and the cryptography are parameters: a `Regex` is what the engine
answers for each name, and `Crypto` decides whether a signature verifies.
-/

namespace NdnCxx

/-- A packet given to the validator. -/
inductive Packet
  | data (data : Data)
  | interest (interest : Interest)
  deriving DecidableEq

abbrev PublicKey := Bytes

/-- `Validator::verifySignature` with a public key and with a SHA-256 digest; the signed bytes and
the signature value are part of the packet. -/
structure Crypto where
  verifySignature : Packet → SignatureInfo → PublicKey → Bool
  verifyDigest : Packet → SignatureInfo → Bool

/-- A compiled regular expression with its expand string: the answers of `match`, and of `expand`
after a name was matched. A back reference out of range and a malformed expand string make `expand`
throw. -/
structure Regex where
  isMatch : Name → Bool
  expand : Name → Except Error Name

namespace SignedInterest

def minLength : ℕ := 4

end SignedInterest

/-! ## Filters -/

/-- The relations of `RelationNameFilter` and of `KeyLocatorChecker`. -/
inductive Relation
  | equal
  | isPrefixOf
  | isStrictPrefixOf
  deriving DecidableEq

/-- `RelationNameFilter` and `RegexNameFilter` -/
inductive Filter
  | relation (name : Name) (relation : Relation)
  | regex (regex : Regex)

namespace Filter

def matchName : Filter → Name → Bool
  | .relation filterName .equal, name => name.equals filterName
  | .relation filterName .isPrefixOf, name => filterName.isPrefixOf name
  | .relation filterName .isStrictPrefixOf, name =>
      filterName.isPrefixOf name && filterName.length < name.length
  | .regex filterRegex, name => filterRegex.isMatch name

/-- `Filter::match`; the signature components of an Interest are left out. -/
def isMatch (filter : Filter) : Packet → Bool
  | .data data => filter.matchName data.name
  | .interest interest =>
      if interest.name.length < SignedInterest.minLength then false
      else filter.matchName (interest.name.getPrefix (-SignedInterest.minLength))

end Filter

/-! ## Key-locator checkers -/

/-- `RelationKeyLocatorNameChecker`, `RegexKeyLocatorNameChecker` and
`HyperKeyLocatorNameChecker` -/
inductive KeyLocatorChecker
  | relation (name : Name) (relation : Relation)
  | regex (regex : Regex)
  | hyper (hyperPRegex hyperKRegex : Regex) (hyperRelation : Relation)

namespace KeyLocatorChecker

def checkRelation (relation : Relation) (name1 name2 : Name) : Bool :=
  match relation with
  | .equal => name1.equals name2
  | .isPrefixOf => name1.isPrefixOf name2
  | .isStrictPrefixOf => name1.isPrefixOf name2 && !name1.equals name2

/-- The condition inside the `try` block of each checker. -/
def accepts (packetName : Name) (keyLocator : KeyLocator) : KeyLocatorChecker → Except Error Bool
  | .relation keyName keyRelation => do
      return checkRelation keyRelation keyName (← keyLocator.getName)
  | .regex keyRegex => do return keyRegex.isMatch (← keyLocator.getName)
  | .hyper hyperPRegex hyperKRegex hyperRelation => do
      if !hyperPRegex.isMatch packetName then return false
      let keyName ← keyLocator.getName
      if !hyperKRegex.isMatch keyName then return false
      return checkRelation hyperRelation (← hyperKRegex.expand keyName)
        (← hyperPRegex.expand packetName)

/-- `check` on a packet name: `none` is success, `some failInfo` is failure. Only
`KeyLocator::Error` is caught. -/
def checkName (checker : KeyLocatorChecker) (packetName : Name) (keyLocator : KeyLocator) :
    Except Error (Option String) :=
  match checker.accepts packetName keyLocator with
  | .ok true => .ok none
  | .ok false => .ok (some "KeyLocatorChecker failed!")
  | .error error =>
      if error.kind = .keyLocator then .ok (some "KeyLocator does not have name") else .error error

def check (checker : KeyLocatorChecker) (packet : Packet) (keyLocator : KeyLocator) :
    Except Error (Option String) :=
  match packet with
  | .data data => checker.checkName data.name keyLocator
  | .interest interest =>
      if interest.name.length < SignedInterest.minLength then .ok (some "No Signature")
      else checker.checkName (interest.name.getPrefix (-SignedInterest.minLength)) keyLocator

end KeyLocatorChecker

/-! ## Checkers -/

/-- A call of one of the two callbacks. -/
inductive Call
  | validated
  | failed (info : String)
  deriving DecidableEq

/-- The calls made by a `check`, and what it returned or threw. -/
structure Report where
  calls : List Call
  result : Except Error ℤ

namespace Report

def reject (info : String) : Report := ⟨[.failed info], .ok (-1)⟩

/-- Calls made before the rest of a `check`. -/
def after (calls : List Call) (report : Report) : Report :=
  ⟨calls ++ report.calls, report.result⟩

end Report

/-- `CustomizedChecker`. For `DigestSha256` the key-locator checker is never consulted and may be a
null pointer in the source. -/
structure CustomizedChecker where
  sigType : ℕ
  keyLocatorChecker : KeyLocatorChecker
  isSupported : sigType = Tlv.signatureSha256WithRsa ∨ sigType = Tlv.signatureSha256WithEcdsa ∨
    sigType = Tlv.digestSha256

theorem Tlv.isSupported_signatureSha256WithRsa : Tlv.signatureSha256WithRsa =
    Tlv.signatureSha256WithRsa ∨ Tlv.signatureSha256WithRsa = Tlv.signatureSha256WithEcdsa ∨
      Tlv.signatureSha256WithRsa = Tlv.digestSha256 := .inl rfl

/-- `FixedSignerChecker`, with the keys of the signers. -/
structure FixedSignerChecker where
  sigType : ℕ
  signers : OrderedMap Name PublicKey (· < ·)
  isStrong : sigType = Tlv.signatureSha256WithRsa ∨ sigType = Tlv.signatureSha256WithEcdsa

def signatureTypeMismatch (sigType : ℕ) (info : SignatureInfo) : String :=
  "Signature type does not match: " ++ toString sigType ++ "!=" ++ toString info.type

/-- The `switch` over the signature type in both checkers: it reports a missing key locator and then
carries on. `none` stands for leaving the switch. -/
def checkSignatureType (info : SignatureInfo) : List Call × Option Report :=
  if info.type = Tlv.signatureSha256WithRsa ∨ info.type = Tlv.signatureSha256WithEcdsa then
    (if !info.hasKeyLocator then [.failed "Missing KeyLocator in SignatureInfo"] else [], none)
  else ([], some (.reject ("Unsupported signature type: " ++ toString info.type)))

/-- `CustomizedChecker::check` on a decoded signature -/
def CustomizedChecker.checkSignatureInfo (checker : CustomizedChecker) (packet : Packet)
    (info : SignatureInfo) : Report :=
  if checker.sigType ≠ info.type then .reject (signatureTypeMismatch checker.sigType info)
  else if info.type = Tlv.digestSha256 then ⟨[], .ok 0⟩
  else
    match checkSignatureType info with
    | (calls, some report) => report.after calls
    | (calls, none) =>
        -- outside the `try` block: nothing here is caught
        match (do checker.keyLocatorChecker.check packet (← info.getKeyLocator)) with
        | .error error => ⟨calls, .error error⟩
        | .ok none => ⟨calls, .ok 0⟩
        | .ok (some failInfo) => (Report.reject failInfo).after calls

/-- `FixedSignerChecker::check` on a decoded signature -/
def FixedSignerChecker.checkSignatureInfo (crypto : Crypto) (checker : FixedSignerChecker)
    (packet : Packet) (info : SignatureInfo) : Report :=
  if checker.sigType ≠ info.type then .reject (signatureTypeMismatch checker.sigType info)
  else if info.type = Tlv.digestSha256 then
    .reject "FixedSigner does not allow Sha256 signature type"
  else
    match checkSignatureType info with
    | (calls, some report) => report.after calls
    | (calls, none) =>
        match (do (← info.getKeyLocator).getName : Except Error Name) with
        | .error error =>
            if error.kind = .keyLocator then
              (Report.reject "KeyLocator does not have name").after calls
            else if error.isTlvError then (Report.reject "Cannot decode signature").after calls
            else ⟨calls, .error error⟩
        | .ok keyLocatorName =>
            match checker.signers.find keyLocatorName with
            | none =>
                (Report.reject
                  ("Signer is not in the fixed signer list: " ++ keyLocatorName.toUri)).after calls
            | some publicKey =>
                if crypto.verifySignature packet info publicKey then
                  ⟨calls ++ [.validated], .ok 1⟩
                else (Report.reject "Signature cannot be validated").after calls

/-- A checker of a rule. -/
inductive Checker
  | customized (checker : CustomizedChecker)
  | fixedSigner (checker : FixedSignerChecker)

namespace Checker

/-- `HierarchicalChecker`: a customized checker with a fixed hyper relation, given the compilation
of a pattern with its expand string. -/
def hierarchical (compile : String → String → Regex) (sigType : ℕ)
    (isSupported : sigType = Tlv.signatureSha256WithRsa ∨ sigType = Tlv.signatureSha256WithEcdsa ∨
      sigType = Tlv.digestSha256) : Checker :=
  .customized
    { sigType := sigType
      keyLocatorChecker :=
        .hyper (compile "^(<>*)$" "\\1")
          (compile "^([^<KEY>]*)<KEY>(<>*)<ksk-.*><ID-CERT>$" "\\1\\2") .isPrefixOf
      isSupported := isSupported }

def sigType : Checker → ℕ
  | .customized checker => checker.sigType
  | .fixedSigner checker => checker.sigType

def checkSignatureInfo (crypto : Crypto) (checker : Checker) (packet : Packet)
    (info : SignatureInfo) : Report :=
  match checker with
  | .customized checker => checker.checkSignatureInfo packet info
  | .fixedSigner checker => checker.checkSignatureInfo crypto packet info

/-- `Checker::check`. For an Interest the signature is decoded again, and `tlv::Error` is caught. -/
def check (crypto : Crypto) (checker : Checker) : Packet → Report
  | .data data => checker.checkSignatureInfo crypto (.data data) data.signatureInfo
  | .interest interest =>
      match SignatureInfo.ofInterestName interest.name with
      | .error error => handle [] error
      | .ok info =>
          let report := checker.checkSignatureInfo crypto (.interest interest) info
          match report.result with
          | .error error => handle report.calls error
          | .ok _ => report
where
  handle (calls : List Call) (error : Error) : Report :=
    if error.kind = .signature then (Report.reject "Invalid signature").after calls
    else if error.isTlvError then
      (Report.reject "Cannot decode signature related TLVs").after calls
    else ⟨calls, .error error⟩

end Checker

/-! ## Rules -/

/-- `Rule`. A configured rule has at least one checker. -/
structure Rule where
  filters : List Filter
  checkers : List Checker
  checkers_ne_nil : checkers ≠ []

namespace Rule

def isMatch (rule : Rule) (packet : Packet) : Bool :=
  if rule.filters.isEmpty then true else rule.filters.all fun filter ↦ filter.isMatch packet

/-- The loop of `Rule::check`: it goes on to the next checker after a failed one. -/
def checkLoop (crypto : Crypto) (packet : Packet) : List Checker → Report
  | [] => ⟨[], .ok (-1)⟩
  | checker :: rest =>
      let report := checker.check crypto packet
      match report.result with
      | .error _ => report
      | .ok result =>
          if result ≥ 0 then report else (checkLoop crypto packet rest).after report.calls

def check (crypto : Crypto) (rule : Rule) (packet : Packet) : Report :=
  checkLoop crypto packet rule.checkers

end Rule

end NdnCxx
