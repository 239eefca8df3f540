import NdnCxx.Security.Reload

/-!
# Validators without a certificate cache

The default certificate cache of a `ValidatorConfig` is a null pointer, and a cache is made in its
place only if a face is given. `checkSignature` asks the cache if the key is not among the anchors
and there is a cache; in every other case it reads the value behind the iterator that `find` returned,
also if that is the end of the anchors. A check that does so has no outcome.
-/

namespace NdnCxx

/-- The arguments of a constructor of `ValidatorConfig` that decide about the cache, and those that
are kept. `isReference` is the form that takes a reference to a face. -/
structure Construction where
  isReference : Bool
  face : Bool
  certificateCache : Option (List (Name × PublicKey))
  graceInterval : ℤ
  stepLimit : ℕ
  maxTrackedKeys : ℕ
  keyTimestampTtl : ℤ

/-- A validator, and whether `m_certificateCache` points to a cache; without one there are no
certificates in it. -/
structure CachingValidator where
  validator : Validator
  hasCache : Bool

namespace Construction

def defaultGraceInterval : ℤ := 3000 * 1000000

def makesCache (construction : Construction) : Bool :=
  construction.certificateCache.isSome || construction.isReference || construction.face

def construct (construction : Construction) : CachingValidator where
  validator :=
    { Validator.init construction.stepLimit
        (if construction.graceInterval < 0 then defaultGraceInterval
          else construction.graceInterval)
        construction.maxTrackedKeys construction.keyTimestampTtl with
      certificateCache := construction.certificateCache.getD [] }
  hasCache :=
    if construction.certificateCache.isSome then true
    else if construction.isReference then true
    else construction.face

end Construction

namespace CachingValidator

variable (crypto : Crypto)

/-- The validator after an action; what happens to the cache happens only if there is one. -/
def perform (caching : CachingValidator) (action : Validator.Action) : CachingValidator :=
  match action with
  | .insertCertificate _ _ | .removeCertificate _ =>
      if caching.hasCache then
        { caching with validator := caching.validator.perform crypto action }
      else caching
  | .load _ | .check _ _ _ | .runPostedReset =>
      { caching with validator := caching.validator.perform crypto action }

def after (caching : CachingValidator) (history : List Validator.Action) : CachingValidator :=
  history.foldl (perform crypto) caching

/-- The certificate that `checkSignature` looks up: the anchor, or what the cache has; `none` is a
read of the value at the end of the anchors. -/
def lookUp (caching : CachingValidator) (anchors : OrderedMap Name PublicKey (· < ·))
    (keyLocatorName : Name) : Option (Option PublicKey) :=
  let it := anchors.find keyLocatorName
  if it.isNone && caching.hasCache then
    some (caching.validator.certificateCache.lookup keyLocatorName)
  else it.map some

/-- What `checkSignature` does with the certificate, if any. -/
def withCertificate (caching : CachingValidator) (packet : Packet) (info : SignatureInfo)
    (nSteps : ℕ) (keyLocatorName : Name) : Option PublicKey → Outcome
  | some publicKey =>
      if crypto.verifySignature packet info publicKey then .call .validated
      else .call (.failed "Cannot verify signature")
  | none =>
      if caching.validator.config.stepLimit = nSteps then
        .call (.failed "Maximum steps of validation reached")
      else ⟨[], [⟨{ name := keyLocatorName }, 1, nSteps + 1⟩], none⟩

/-- `ValidatorConfig::checkSignature`; `none` is a read of the value at the end of the anchors. -/
def checkSignature (caching : CachingValidator) (files : Files) (now : ℤ) (packet : Packet)
    (info : SignatureInfo) (nSteps : ℕ) : Option Outcome :=
  if info.type = Tlv.digestSha256 then
    if crypto.verifyDigest packet info then some (.call .validated)
    else some (.call (.failed "Sha256 Signature cannot be verified!"))
  else if info.type = Tlv.signatureSha256WithRsa ∨ info.type = Tlv.signatureSha256WithEcdsa then
    match info.keyLocator with
    | none => some (.call (.failed "Missing KeyLocator in SignatureInfo"))
    | some keyLocator =>
        match keyLocator.content with
        | .name keyLocatorName =>
            match caching.validator.trustAnchors.refreshAnchors files now with
            | (_, some error) => some ⟨[], [], some error⟩
            | (refreshed, none) =>
                (caching.lookUp refreshed.anchors keyLocatorName).map
                  (caching.withCertificate crypto packet info nSteps keyLocatorName)
        | _ => some (.call (.failed "Unsupported KeyLocator type"))
  else some (.call (.failed "Unsupported signature type"))

/-- The packet is checked against the anchors, which could be refreshed, under this name. -/
def SearchesFor (caching : CachingValidator) (files : Files) (now : ℤ) (info : SignatureInfo)
    (keyLocatorName : Name) (anchors : OrderedMap Name PublicKey (· < ·)) : Prop :=
  (info.type = Tlv.signatureSha256WithRsa ∨ info.type = Tlv.signatureSha256WithEcdsa) ∧
    (∃ wire, info.keyLocator = some ⟨.name keyLocatorName, wire⟩) ∧
    ∃ refreshed, caching.validator.trustAnchors.refreshAnchors files now = (refreshed, none) ∧
      refreshed.anchors = anchors

/-- The end of the anchors is not read, and a key that is neither an anchor nor in the cache leads to
the request for its certificate or to the failure at the step limit. -/
structure LooksUpSafely (caching : CachingValidator) (files : Files) (now : ℤ) (packet : Packet)
    (info : SignatureInfo) (nSteps : ℕ) : Prop where
  returns : caching.checkSignature crypto files now packet info nSteps ≠ none
  requests : ∀ keyLocatorName anchors, caching.SearchesFor files now info keyLocatorName anchors →
    anchors.find keyLocatorName = none →
    (caching.hasCache = true → caching.validator.certificateCache.lookup keyLocatorName = none) →
      caching.checkSignature crypto files now packet info nSteps =
        some (if caching.validator.config.stepLimit = nSteps then
          .call (.failed "Maximum steps of validation reached")
        else ⟨[], [⟨{ name := keyLocatorName }, 1, nSteps + 1⟩], none⟩)

/-- The key that is searched for is an anchor. -/
def FindsAnchor (caching : CachingValidator) (files : Files) (now : ℤ) (info : SignatureInfo) :
    Prop :=
  ∀ keyLocatorName anchors, caching.SearchesFor files now info keyLocatorName anchors →
    anchors.find keyLocatorName ≠ none

variable {crypto} {caching : CachingValidator} {files : Files} {now : ℤ} {packet : Packet}
  {info : SignatureInfo} {nSteps : ℕ}

/-! ## Looking up a certificate -/

variable {anchors : OrderedMap Name PublicKey (· < ·)} {keyLocatorName : Name}

theorem lookUp_eq_none_iff :
    caching.lookUp anchors keyLocatorName = none ↔
      anchors.find keyLocatorName = none ∧ caching.hasCache = false := by
  unfold lookUp
  cases hfind : anchors.find keyLocatorName <;> cases hcache : caching.hasCache <;> simp

theorem checkSignature_eq_map
    (hsearch : caching.SearchesFor files now info keyLocatorName anchors) :
    caching.checkSignature crypto files now packet info nSteps =
      (caching.lookUp anchors keyLocatorName).map
        (caching.withCertificate crypto packet info nSteps keyLocatorName) := by
  obtain ⟨htype, ⟨wire, hlocator⟩, refreshed, hrefresh, rfl⟩ := hsearch
  have hdigest : info.type ≠ Tlv.digestSha256 := by
    rcases htype with htype | htype <;> rw [htype] <;> decide
  unfold checkSignature
  rw [if_neg hdigest, if_pos htype, hlocator]
  dsimp only
  rw [hrefresh]

/-- A validator that has a cache, on the same packet. -/
theorem checkSignature_environment_eq
    (hsearch : caching.SearchesFor files now info keyLocatorName anchors) :
    caching.validator.config.checkSignature (caching.validator.environment crypto files now)
        packet info nSteps =
      caching.withCertificate crypto packet info nSteps keyLocatorName
        ((anchors.find keyLocatorName).or
          (caching.validator.certificateCache.lookup keyLocatorName)) := by
  obtain ⟨htype, ⟨wire, hlocator⟩, refreshed, hrefresh, rfl⟩ := hsearch
  have hdigest : info.type ≠ Tlv.digestSha256 := by
    rcases htype with htype | htype <;> rw [htype] <;> decide
  have hanchors : (caching.validator.environment crypto files now).refreshAnchors =
      .ok refreshed.anchors := by
    rw [Validator.environment]
    dsimp only
    rw [hrefresh]
  have hcache : (caching.validator.environment crypto files now).getCertificate keyLocatorName =
      caching.validator.certificateCache.lookup keyLocatorName := rfl
  unfold ValidatorConfig.checkSignature
  rw [if_neg hdigest, if_pos htype, hlocator]
  dsimp only
  rw [hanchors]
  dsimp only
  rw [hcache]
  cases (refreshed.anchors.find keyLocatorName).or
    (caching.validator.certificateCache.lookup keyLocatorName) <;> rfl

/-- A packet that is not searched for is decided without the anchors and the cache. -/
theorem checkSignature_of_not_searchesFor (packet : Packet) (nSteps : ℕ)
    (hsearch : ∀ keyLocatorName anchors,
      ¬ caching.SearchesFor files now info keyLocatorName anchors) :
    caching.checkSignature crypto files now packet info nSteps =
      some (caching.validator.config.checkSignature
        (caching.validator.environment crypto files now) packet info nSteps) := by
  unfold checkSignature ValidatorConfig.checkSignature
  by_cases hdigest : info.type = Tlv.digestSha256
  · have hcrypto : (caching.validator.environment crypto files now).crypto = crypto := rfl
    rw [if_pos hdigest, if_pos hdigest, hcrypto]
    cases crypto.verifyDigest packet info <;> rfl
  rw [if_neg hdigest, if_neg hdigest]
  by_cases htype : info.type = Tlv.signatureSha256WithRsa ∨
      info.type = Tlv.signatureSha256WithEcdsa
  · rw [if_pos htype, if_pos htype]
    cases hlocator : info.keyLocator with
    | none => rfl
    | some keyLocator =>
      obtain ⟨content, wire⟩ := keyLocator
      cases content with
      | name keyLocatorName =>
        dsimp only
        cases hrefresh : caching.validator.trustAnchors.refreshAnchors files now with
        | mk refreshed thrown =>
          cases thrown with
          | none =>
            exact absurd ⟨htype, ⟨wire, hlocator⟩, refreshed, hrefresh, rfl⟩
              (hsearch keyLocatorName refreshed.anchors)
          | some error =>
            have hanchors : (caching.validator.environment crypto files now).refreshAnchors =
                .error error := by
              rw [Validator.environment]
              dsimp only
              rw [hrefresh]
            rw [hanchors]
      | _ => rfl
  · rw [if_neg htype, if_neg htype]

/-- With a cache, or for an anchor, the check is the one of a validator that has a cache. -/
theorem checkSignature_eq (packet : Packet) (nSteps : ℕ)
    (hsafe : caching.hasCache = true ∨ caching.FindsAnchor files now info) :
    caching.checkSignature crypto files now packet info nSteps =
      some (caching.validator.config.checkSignature
        (caching.validator.environment crypto files now) packet info nSteps) := by
  by_cases hsearch : ∃ keyLocatorName anchors,
      caching.SearchesFor files now info keyLocatorName anchors
  · obtain ⟨keyLocatorName, anchors, hsearch⟩ := hsearch
    have hfound : caching.lookUp anchors keyLocatorName =
        some ((anchors.find keyLocatorName).or
          (caching.validator.certificateCache.lookup keyLocatorName)) := by
      unfold lookUp
      cases hfind : anchors.find keyLocatorName with
      | none =>
        have hcache : caching.hasCache = true := by
          apply hsafe.resolve_right
          intro hfinds
          exact hfinds keyLocatorName anchors hsearch hfind
        rw [hcache]
        rfl
      | some publicKey => rfl
    rw [checkSignature_eq_map hsearch, checkSignature_environment_eq hsearch, hfound]
    rfl
  · apply checkSignature_of_not_searchesFor
    intro keyLocatorName anchors hsearches
    exact hsearch ⟨keyLocatorName, anchors, hsearches⟩

theorem looksUpSafely_iff_hasCache (packet : Packet) (nSteps : ℕ) :
    caching.LooksUpSafely crypto files now packet info nSteps ↔
      caching.hasCache = true ∨ caching.FindsAnchor files now info := by
  constructor
  · intro hsafe
    by_contra hnot
    push Not at hnot
    obtain ⟨hcache, hfinds⟩ := hnot
    unfold FindsAnchor at hfinds
    push Not at hfinds
    obtain ⟨keyLocatorName, anchors, hsearch, hfind⟩ := hfinds
    have hend : caching.lookUp anchors keyLocatorName = none :=
      lookUp_eq_none_iff.mpr ⟨hfind, Bool.eq_false_iff.mpr hcache⟩
    apply hsafe.returns
    rw [checkSignature_eq_map hsearch, hend]
    rfl
  · intro hsafe
    refine ⟨?_, ?_⟩
    · rw [checkSignature_eq packet nSteps hsafe]
      exact Option.some_ne_none _
    · intro keyLocatorName anchors hsearch hfind huncached
      have hcache : caching.hasCache = true := by
        apply hsafe.resolve_right
        intro hfinds
        exact hfinds keyLocatorName anchors hsearch hfind
      rw [checkSignature_eq packet nSteps hsafe, checkSignature_environment_eq hsearch, hfind,
        huncached hcache]
      rfl

/-! ## Every history -/

theorem hasCache_construct (construction : Construction) :
    construction.construct.hasCache = construction.makesCache := by
  unfold Construction.construct Construction.makesCache
  cases construction.certificateCache <;> cases construction.isReference <;> rfl

theorem hasCache_perform (crypto : Crypto) (caching : CachingValidator)
    (action : Validator.Action) : (caching.perform crypto action).hasCache = caching.hasCache := by
  unfold perform
  split
  · split_ifs <;> rfl
  · split_ifs <;> rfl
  · rfl
  · rfl
  · rfl

theorem hasCache_after (crypto : Crypto) (caching : CachingValidator)
    (history : List Validator.Action) :
    (caching.after crypto history).hasCache = caching.hasCache := by
  induction history generalizing caching with
  | nil => rfl
  | cons action rest ih =>
    calc
      (caching.after crypto (action :: rest)).hasCache
          = ((caching.perform crypto action).after crypto rest).hasCache := rfl
      _ = (caching.perform crypto action).hasCache := ih _
      _ = caching.hasCache := hasCache_perform crypto caching action

/-- After any history, a check is safe exactly if the validator was constructed with a cache or with
a face, or else the key is an anchor. -/
theorem looksUpSafely_iff (crypto : Crypto) (construction : Construction)
    (history : List Validator.Action) (files : Files) (now : ℤ) (packet : Packet)
    (info : SignatureInfo) (nSteps : ℕ) :
    (construction.construct.after crypto history).LooksUpSafely crypto files now packet info
        nSteps ↔
      construction.makesCache = true ∨
        (construction.construct.after crypto history).FindsAnchor files now info := by
  rw [looksUpSafely_iff_hasCache, hasCache_after, hasCache_construct]

/-- A rule that leaves every signer to the anchors, and no anchors. -/
def ruleOnly : List Validator.Action := [.load (Validator.loadingOf [Validator.anySigner])]

/-- A validator that was constructed without arguments and has loaded such a rule reads behind the
anchors in the signature check of a Data packet. -/
theorem not_looksUpSafely_default :
    ∃ construction : Construction, construction.isReference = false ∧ construction.face = false ∧
      construction.certificateCache = none ∧
      Validator.refreshes Validator.noCrypto
        (construction.construct.after Validator.noCrypto ruleOnly).validator.config
        (.data Validator.rootSigned 0) = true ∧
      (construction.construct.after Validator.noCrypto ruleOnly).checkSignature Validator.noCrypto
        Validator.rootFiles 0 (.data Validator.rootSigned) Validator.rootSigned.signatureInfo 0 =
          none ∧
      ¬ (construction.construct.after Validator.noCrypto ruleOnly).LooksUpSafely Validator.noCrypto
        Validator.rootFiles 0 (.data Validator.rootSigned) Validator.rootSigned.signatureInfo 0 := by
  have hend : ((⟨false, false, none, 0, 10, 1, 0⟩ : Construction).construct.after
      Validator.noCrypto ruleOnly).checkSignature Validator.noCrypto Validator.rootFiles 0
        (.data Validator.rootSigned) Validator.rootSigned.signatureInfo 0 = none := by decide
  refine ⟨⟨false, false, none, 0, 10, 1, 0⟩, rfl, rfl, rfl, by decide, hend, ?_⟩
  intro hsafe
  exact hsafe.returns hend

end CachingValidator

end NdnCxx
