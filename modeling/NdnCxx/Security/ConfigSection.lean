import NdnCxx.Name.FromUri
import NdnCxx.Security.Conf

/-!
# Sections of the validator configuration

The factories that read filters, key-locator checkers, checkers and rules from a configuration
section, property by property. Certificates come from files or from base64 text, which enter as
parameters, as does the compilation of regular expressions.
-/

namespace NdnCxx

/-- `security::conf::ConfigSection`: a value and the named sections below it, in order. -/
inductive ConfigSection
  | mk (data : String) (properties : List (String × ConfigSection))

namespace ConfigSection

def data : ConfigSection → String
  | mk data _ => data

def properties : ConfigSection → List (String × ConfigSection)
  | mk _ properties => properties

end ConfigSection

/-- What a configuration makes `load` throw: a `conf::Error`, or another exception that no handler
catches. -/
inductive LoadError
  | conf (what : String)
  | other (error : Error)
  deriving DecidableEq

/-- An `IdentityCertificate`, whose name is never empty. -/
structure Certificate where
  name : Name
  publicKey : PublicKey
  name_ne_nil : name ≠ []
  deriving DecidableEq

/-- The name by which a certificate is found: the name without its version. -/
def Certificate.keyName (certificate : Certificate) : Name := certificate.name.getPrefix (-1)

/-- The paths that a `directory_iterator` walks over, and the exception that it ends with, if any. -/
structure Directory where
  paths : List String
  thrown : Option Error

/-- Files and directories as they are at some moment. `absolute` is the absolute path of a file
named in a configuration file, `load` and `decode` read a certificate from a file and from base64
text. -/
structure Files where
  absolute : String → String → String
  load : String → Option Certificate
  decode : String → Option Certificate
  directory : String → Directory

/-- Which regular expressions with expand strings are well formed, and what they are compiled to. -/
structure RegexEngine where
  isWellFormed : String → String → Bool
  compile : String → String → Regex

def iequals (first second : String) : Bool :=
  first.toList.map Char.toLower == second.toList.map Char.toLower

namespace ConfigSection

/-- The next property, which must have this name. -/
def expect (name message : String) :
    List (String × ConfigSection) → Except LoadError (ConfigSection × List (String × ConfigSection))
  | (propertyName, property) :: rest =>
      if iequals propertyName name then .ok (property, rest) else .error (.conf message)
  | [] => .error (.conf message)

/-- No property must be left. -/
def expectEnd (message : String) (rest : List (String × ConfigSection)) : Except LoadError Unit :=
  if rest.isEmpty then .ok () else .error (.conf message)

/-- A name in a configuration. The handlers catch `Name::Error` only, which is not what the
constructor throws. -/
def parseName (text : String) : Except LoadError Name :=
  match Name.fromUri text.toList with
  | .ok name => .ok name
  | .error error => .error (.other error)

/-- A relation, as in filters and in key-locator checkers. -/
def parseRelation (message text : String) : Except LoadError Relation :=
  if iequals text "equal" then .ok .equal
  else if iequals text "is-prefix-of" then .ok .isPrefixOf
  else if iequals text "is-strict-prefix-of" then .ok .isStrictPrefixOf
  else .error (.conf (message ++ text))

variable (engine : RegexEngine)

def parseRegex (message expression expand : String) : Except LoadError Regex :=
  if engine.isWellFormed expression expand then .ok (engine.compile expression expand)
  else .error (.conf message)

/-! ## Filters -/

def createNameFilter : List (String × ConfigSection) → Except LoadError Filter
  | [] => .error (.conf "Expect more properties for filter(name)")
  | (propertyName, property) :: rest =>
      if iequals propertyName "name" then do
        let name ← parseName property.data
        let (relationSection, rest) ← expect "relation" "Expect <filter.relation>!" rest
        let relation ← parseRelation "Unsupported relation: " relationSection.data
        expectEnd "Expect the end of filter!" rest
        return .relation name relation
      else if iequals propertyName "regex" then do
        expectEnd "Expect the end of filter!" rest
        let regex ← parseRegex engine ("Wrong filter.regex: " ++ property.data) property.data ""
        return .regex regex
      else .error (.conf "Wrong filter(name) properties")

def createFilter (configSection : ConfigSection) : Except LoadError Filter := do
  let (type, rest) ← expect "type" "Expect <filter.type>!" configSection.properties
  if iequals type.data "name" then createNameFilter engine rest
  else .error (.conf ("Unsupported filter.type: " ++ type.data))

/-! ## Key-locator checkers -/

def createHyperChecker (hSection : ConfigSection) : Except LoadError KeyLocatorChecker := do
  let message (name : String) := "Expect <checker.key-locator.hyper-relation." ++ name ++ ">!"
  let (kRegex, rest) ← expect "k-regex" (message "k-regex") hSection.properties
  let (kExpand, rest) ← expect "k-expand" (message "k-expand") rest
  let (hRelation, rest) ← expect "h-relation" (message "h-relation") rest
  let (pRegex, rest) ← expect "p-regex" (message "p-regex") rest
  let (pExpand, rest) ← expect "p-expand" (message "p-expand") rest
  expectEnd "Expect the end of checker.key-locator.hyper-relation!" rest
  let relation ← parseRelation
    "Unsupported checker.key-locator.hyper-relation.h-relation: " hRelation.data
  let invalid := "Invalid regex for key-locator.hyper-relation"
  let hyperPRegex ← parseRegex engine invalid pRegex.data pExpand.data
  let hyperKRegex ← parseRegex engine invalid kRegex.data kExpand.data
  return .hyper hyperPRegex hyperKRegex relation

def createKeyLocatorNameChecker :
    List (String × ConfigSection) → Except LoadError KeyLocatorChecker
  | [] => .error (.conf "Expect more checker.key-locator properties")
  | (propertyName, property) :: rest =>
      if iequals propertyName "name" then do
        let name ← parseName property.data
        let (relationSection, rest) ← expect "relation" "Expect <checker.key-locator.relation>!" rest
        let relation ← parseRelation "Unsupported relation: " relationSection.data
        expectEnd "Expect the end of checker.key-locator!" rest
        return .relation name relation
      else if iequals propertyName "regex" then do
        expectEnd "Expect the end of checker.key-locator!" rest
        let regex ← parseRegex engine ("Invalid checker.key-locator.regex: " ++ property.data)
          property.data ""
        return .regex regex
      else if iequals propertyName "hyper-relation" then createHyperChecker engine property
      else .error (.conf "Unsupported checker.key-locator")

def createKeyLocatorChecker (configSection : ConfigSection) :
    Except LoadError KeyLocatorChecker := do
  let (type, rest) ← expect "type" "Expect <checker.key-locator.type>!" configSection.properties
  if iequals type.data "name" then createKeyLocatorNameChecker engine rest
  else .error (.conf ("Unsupported checker.key-locator.type: " ++ type.data))

/-! ## Checkers -/

def getSigType (text : String) : Except LoadError { sigType : ℕ //
    sigType = Tlv.signatureSha256WithRsa ∨ sigType = Tlv.signatureSha256WithEcdsa ∨
      sigType = Tlv.digestSha256 } :=
  if iequals text "rsa-sha256" then .ok ⟨Tlv.signatureSha256WithRsa, .inl rfl⟩
  else if iequals text "ecdsa-sha256" then .ok ⟨Tlv.signatureSha256WithEcdsa, .inr (.inl rfl)⟩
  else if iequals text "sha256" then .ok ⟨Tlv.digestSha256, .inr (.inr rfl)⟩
  else .error (.conf "Unsupported signature type")

def createCustomizedChecker (rest : List (String × ConfigSection)) : Except LoadError Checker := do
  let (sigType, rest) ← expect "sig-type" "Expect <checker.sig-type>" rest
  let (keyLocator, rest) ← expect "key-locator" "Expect <checker.key-locator>" rest
  let keyLocatorChecker ← createKeyLocatorChecker engine keyLocator
  expectEnd "Expect the end of checker" rest
  let supported ← getSigType sigType.data
  return .customized ⟨supported.1, keyLocatorChecker, supported.2⟩

def createHierarchicalChecker (rest : List (String × ConfigSection)) :
    Except LoadError Checker := do
  let (sigType, rest) ← expect "sig-type" "Expect <checker.sig-type>" rest
  expectEnd "Expect the end of checker" rest
  let supported ← getSigType sigType.data
  return .hierarchical engine.compile supported.1 supported.2

variable (files : Files) (filename : String)

def getSigner (configSection : ConfigSection) : Except LoadError Certificate := do
  let (type, rest) ← expect "type" "Expect <checker.signer.type>" configSection.properties
  if iequals type.data "file" then
    let (file, rest) ← expect "file-name" "Expect <checker.signer.file-name>" rest
    expectEnd "Expect the end of checker.signer" rest
    let certfilePath := files.absolute file.data filename
    match files.load certfilePath with
    | some idCert => return idCert
    | none => .error (.conf ("Cannot read certificate from file: " ++ certfilePath))
  else if iequals type.data "base64" then
    let (text, rest) ← expect "base64-string" "Expect <checker.signer.base64-string>" rest
    expectEnd "Expect the end of checker.signer" rest
    match files.decode text.data with
    | some idCert => return idCert
    | none => .error (.conf "Cannot decode certificate from string")
  else .error (.conf ("Unsupported checker.signer type: " ++ type.data))

def getSigners : List (String × ConfigSection) → Except LoadError (List Certificate)
  | [] => .ok []
  | (propertyName, property) :: rest =>
      if iequals propertyName "signer" then do
        let signer ← getSigner files filename property
        return signer :: (← getSigners rest)
      else
        .error (.conf ("Expect <checker.signer> but get <checker." ++ propertyName ++ ">"))

/-- The certificates by the names that key locators have, a later one in the place of an earlier
one. -/
def byKeyName (certificates : List Certificate) : OrderedMap Name PublicKey (· < ·) :=
  certificates.foldl (fun found certificate ↦
    found.assign certificate.keyName certificate.publicKey) OrderedMap.empty

def createFixedSignerChecker (rest : List (String × ConfigSection)) :
    Except LoadError Checker := do
  let (sigType, rest) ← expect "sig-type" "Expect <checker.sig-type>" rest
  let signers ← getSigners files filename rest
  let supported ← getSigType sigType.data
  if hstrong : supported.1 = Tlv.signatureSha256WithRsa ∨
      supported.1 = Tlv.signatureSha256WithEcdsa then
    return .fixedSigner ⟨supported.1, byKeyName signers, hstrong⟩
  else .error (.conf "FixedSigner is only meaningful for strong signature type")

def createChecker (configSection : ConfigSection) : Except LoadError Checker := do
  let (type, rest) ← expect "type" "Expect <checker.type>" configSection.properties
  if iequals type.data "customized" then createCustomizedChecker engine rest
  else if iequals type.data "hierarchical" then createHierarchicalChecker engine rest
  else if iequals type.data "fixed-signer" then createFixedSignerChecker files filename rest
  else .error (.conf ("Unsupported checker type: " ++ type.data))

/-! ## Rules -/

/-- The loop over the filters of a rule, up to its first checker -/
def createFilters (ruleId : String) : List (String × ConfigSection) →
    Except LoadError (List Filter × List (String × ConfigSection))
  | [] => .ok ([], [])
  | (propertyName, property) :: rest =>
      if iequals propertyName "filter" then do
        let filter ← createFilter engine property
        let (filters, rest) ← createFilters ruleId rest
        return (filter :: filters, rest)
      else if iequals propertyName "checker" then .ok ([], (propertyName, property) :: rest)
      else .error (.conf ("Expect <rule.filter> in rule: " ++ ruleId))

def createCheckers (ruleId : String) :
    List (String × ConfigSection) → Except LoadError (List Checker)
  | [] => .ok []
  | (propertyName, property) :: rest =>
      if iequals propertyName "checker" then do
        let checker ← createChecker engine files filename property
        return checker :: (← createCheckers ruleId rest)
      else .error (.conf ("Expect <rule.checker> in rule: " ++ ruleId))

/-- What `onConfigRule` reads: whether the rule is one for Data, and the rule. -/
def createRule (configSection : ConfigSection) : Except LoadError (Bool × Rule) := do
  let (id, rest) ← expect "id" "Expect <rule.id>!" configSection.properties
  let ruleId := id.data
  let (usage, rest) ← expect "for" ("Expect <rule.for> in rule: " ++ ruleId ++ "!") rest
  let isForData ←
    if iequals usage.data "data" then .ok true
    else if iequals usage.data "interest" then .ok false
    else .error (.conf ("Unrecognized <rule.for>: " ++ usage.data ++ " in rule: " ++ ruleId))
  let (filters, rest) ← createFilters engine ruleId rest
  let checkers ← createCheckers engine files filename ruleId rest
  if hcheckers : checkers ≠ [] then return (isForData, ⟨filters, checkers, hcheckers⟩)
  else .error (.conf ("No <rule.checker> is specified in rule: " ++ ruleId))

end ConfigSection

end NdnCxx
