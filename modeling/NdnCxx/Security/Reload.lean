import NdnCxx.Security.AnchorRefresh

/-!
# Loading a configuration again

`load` is meant to forget what was loaded before. `reset` clears the rules, the anchors and the
containers, but not the switch that a `trust-anchor` section of type `any` turns off, so such a
section stays in force under every later configuration. The certificate cache is cleared at once only
in a handler of its `io_service`; elsewhere the reset is posted.
-/

namespace NdnCxx

namespace Validator

/-! ## What a section leaves -/

def turnsOff (loading : Loading) (named : String × ConfigSection) : Bool :=
  !iequals named.1 "rule" && iequals named.1 "trust-anchor" &&
    match createAnchor loading named.2 with
    | .ok .any => true
    | _ => false

/-- The section is processed without an exception. -/
def isAccepted (loading : Loading) (named : String × ConfigSection) : Bool :=
  if iequals named.1 "rule" then
    (named.2.createRule loading.engine loading.files loading.filename).toOption.isSome
  else if iequals named.1 "trust-anchor" then
    match createAnchor loading named.2 with
    | .error _ => false
    | .ok (.directory _ thrown) => thrown.isNone
    | .ok _ => true
  else false

/-- A section that turns validation off is reached: the sections before it are accepted. -/
def reachesAny (loading : Loading) : List (String × ConfigSection) → Bool
  | [] => false
  | named :: rest =>
      turnsOff loading named || (isAccepted loading named && reachesAny loading rest)

/-- The configuration turns validation off when it is loaded. -/
def disables (loading : Loading) : Bool := reachesAny loading loading.configSection.properties

/-- The same validator with another switch, and the certificate cache and the recorded timestamps of
`other`. -/
def withSwitch (shouldValidate : Bool) (validator other : Validator) : Validator :=
  { validator with
    config := { validator.config with shouldValidate := shouldValidate }
    certificateCache := other.certificateCache
    postedResets := other.postedResets
    lastTimestamp := other.lastTimestamp }

variable {loading : Loading} {index : ℕ} {validator other : Validator}
  {named : String × ConfigSection} {sections : List (String × ConfigSection)}
  {shouldValidate : Bool}

theorem isSome_onConfigSection (loading : Loading) (index : ℕ) (validator : Validator)
    (named : String × ConfigSection) :
    (validator.onConfigSection loading index named).2.isSome = !isAccepted loading named := by
  unfold onConfigSection isAccepted
  split_ifs
  · unfold onConfigRule
    cases named.2.createRule loading.engine loading.files loading.filename with
    | error error => rfl
    | ok rule =>
      obtain ⟨isForData, rule⟩ := rule
      cases isForData <;> rfl
  · unfold onConfigTrustAnchor
    cases createAnchor loading named.2 with
    | error error => rfl
    | ok anchorSection =>
      cases anchorSection with
      | directory certificates thrown => cases thrown <;> rfl
      | _ => rfl
  · rfl

/-- A section does not look at the switch, and only turns it off. -/
theorem onConfigSection_withSwitch :
    (validator.withSwitch shouldValidate other).onConfigSection loading index named =
      ((validator.onConfigSection loading index named).1.withSwitch
          (shouldValidate && !turnsOff loading named) other,
        (validator.onConfigSection loading index named).2) := by
  unfold onConfigSection turnsOff
  split_ifs with hrule hanchor
  · unfold onConfigRule
    cases named.2.createRule loading.engine loading.files loading.filename with
    | error error => simp [withSwitch, hrule]
    | ok rule =>
      obtain ⟨isForData, rule⟩ := rule
      cases isForData <;> simp [withSwitch, hrule]
  · unfold onConfigTrustAnchor
    cases createAnchor loading named.2 with
    | error error => simp [withSwitch]
    | ok anchorSection => cases anchorSection <;> simp [withSwitch, hrule, hanchor]
  · simp [withSwitch, hanchor]

/-- A section only adds to what `reset` clears, apart from the switch. -/
theorem clear_onConfigSection (loading : Loading) (index : ℕ) (validator : Validator)
    (named : String × ConfigSection) :
    (validator.onConfigSection loading index named).1.clear =
      validator.clear.withSwitch (validator.config.shouldValidate && !turnsOff loading named)
        validator := by
  unfold onConfigSection turnsOff
  split_ifs with hrule hanchor
  · unfold onConfigRule
    cases named.2.createRule loading.engine loading.files loading.filename with
    | error error => simp [withSwitch, clear, hrule]
    | ok rule =>
      obtain ⟨isForData, rule⟩ := rule
      cases isForData <;> simp [withSwitch, clear, hrule]
  · unfold onConfigTrustAnchor
    cases createAnchor loading named.2 with
    | error error => simp [withSwitch, clear]
    | ok anchorSection => cases anchorSection <;> simp [withSwitch, clear, hrule, hanchor]
  · simp [withSwitch, clear, hanchor]

theorem loadLoop_withSwitch :
    loadLoop loading index (validator.withSwitch shouldValidate other) sections =
      ((loadLoop loading index validator sections).1.withSwitch
          (shouldValidate && !reachesAny loading sections) other,
        (loadLoop loading index validator sections).2) := by
  induction sections generalizing index validator shouldValidate with
  | nil => simp [loadLoop, reachesAny]
  | cons named rest ih =>
    have hthrown := isSome_onConfigSection loading index validator named
    rw [loadLoop, loadLoop, onConfigSection_withSwitch]
    cases hnext : validator.onConfigSection loading index named with
    | mk next thrown =>
    rw [hnext] at hthrown
    cases thrown with
    | some error =>
      have hrejected : isAccepted loading named = false := by simpa using hthrown
      simp [reachesAny, hrejected]
    | none =>
      have haccepted : isAccepted loading named = true := by simpa using hthrown
      dsimp only
      rw [ih, reachesAny, haccepted, Bool.true_and, Bool.not_or, Bool.and_assoc]

theorem clear_loadLoop :
    (loadLoop loading index validator sections).1.clear =
      validator.clear.withSwitch
        (validator.config.shouldValidate && !reachesAny loading sections) validator := by
  induction sections generalizing index validator with
  | nil => simp [loadLoop, reachesAny, withSwitch, clear]
  | cons named rest ih =>
    have hthrown := isSome_onConfigSection loading index validator named
    have hclear := clear_onConfigSection loading index validator named
    rw [loadLoop]
    cases hnext : validator.onConfigSection loading index named with
    | mk next thrown =>
    rw [hnext] at hthrown hclear
    cases thrown with
    | some error =>
      have hrejected : isAccepted loading named = false := by simpa using hthrown
      simpa [reachesAny, hrejected] using hclear
    | none =>
      have haccepted : isAccepted loading named = true := by simpa using hthrown
      have hswitch : next.config.shouldValidate =
          (validator.config.shouldValidate && !turnsOff loading named) :=
        congrArg (·.config.shouldValidate) hclear
      have hcache : next.certificateCache = validator.certificateCache :=
        congrArg (·.certificateCache) hclear
      have hposted : next.postedResets = validator.postedResets :=
        congrArg (·.postedResets) hclear
      have htimestamps : next.lastTimestamp = validator.lastTimestamp :=
        congrArg (·.lastTimestamp) hclear
      dsimp only at hclear ⊢
      rw [ih, hclear, hswitch, reachesAny, haccepted, Bool.true_and, Bool.not_or, Bool.and_assoc]
      simp only [withSwitch, hcache, hposted, htimestamps]

/-- A validator that differs from a new one in what `clear` clears, in the switch, in the certificate
cache and in the recorded timestamps -/
def Follows (fresh validator : Validator) : Prop :=
  validator.clear = fresh.withSwitch validator.config.shouldValidate validator

variable {fresh : Validator}

theorem reset_of_follows {inIoService : Bool} (hfresh : fresh.clear = fresh)
    (hfollows : Follows fresh validator) :
    validator.reset inIoService = (fresh.reset inIoService).withSwitch
      validator.config.shouldValidate (validator.resetCertificateCache inIoService) := by
  have hclear : (validator.resetCertificateCache inIoService).clear =
      validator.clear.withSwitch validator.config.shouldValidate
        (validator.resetCertificateCache inIoService) := by
    cases inIoService <;> rfl
  have hnew : fresh.reset inIoService =
      fresh.clear.withSwitch fresh.config.shouldValidate
        (fresh.resetCertificateCache inIoService) := by
    cases inIoService <;> rfl
  rw [hnew, reset, hclear, hfollows, hfresh]
  rfl

/-- `load` forgets everything but the switch and the recorded timestamps, once the certificate cache
is reset. -/
theorem load_of_follows (loading : Loading) (hfresh : fresh.clear = fresh)
    (hfollows : Follows fresh validator) :
    validator.load loading =
      ((fresh.load loading).1.withSwitch (validator.config.shouldValidate && !disables loading)
          (validator.resetCertificateCache loading.inIoService),
        (fresh.load loading).2) := by
  unfold load disables
  rw [reset_of_follows hfresh hfollows]
  split_ifs with hempty
  · have hnone : loading.configSection.properties = [] := by simpa using hempty
    simp [hnone, reachesAny]
  · exact loadLoop_withSwitch

theorem clear_load (loading : Loading) (validator : Validator) :
    (validator.load loading).1.clear =
      validator.clear.withSwitch (validator.config.shouldValidate && !disables loading)
        (validator.resetCertificateCache loading.inIoService) := by
  have hreset : (validator.reset loading.inIoService).clear =
      validator.clear.withSwitch validator.config.shouldValidate
        (validator.resetCertificateCache loading.inIoService) := by
    unfold reset resetCertificateCache
    split_ifs <;> rfl
  have hswitch : (validator.reset loading.inIoService).config.shouldValidate =
      validator.config.shouldValidate := by
    unfold reset resetCertificateCache
    split_ifs <;> rfl
  unfold load disables
  split_ifs with hempty
  · have hnone : loading.configSection.properties = [] := by simpa using hempty
    simp [hnone, reachesAny, hreset]
  · rw [clear_loadLoop, hreset, hswitch]
    rfl

/-! ## Histories -/

/-- What happens to a validator: a load, a check, and what validated certificates, the clock and the
`io_service` do to the certificate cache. -/
inductive Action
  | load (loading : Loading)
  | check (files : Files) (now : ℤ) (checked : Check)
  | insertCertificate (name : Name) (publicKey : PublicKey)
  | removeCertificate (name : Name)
  | runPostedReset

def Action.disables : Action → Bool
  | .load loading => Validator.disables loading
  | .check _ _ _ | .insertCertificate _ _ | .removeCertificate _ | .runPostedReset => false

variable (crypto : Crypto)

/-- The validator after an action, which may have ended with an exception. -/
def perform (validator : Validator) : Action → Validator
  | .load loading => (validator.load loading).1
  | .check files now checked => (validator.check crypto files now checked).2
  | .insertCertificate name publicKey =>
      { validator with certificateCache :=
          (name, publicKey) :: validator.certificateCache.filter fun entry ↦ entry.1 ≠ name }
  | .removeCertificate name =>
      { validator with certificateCache :=
          validator.certificateCache.filter fun entry ↦ entry.1 ≠ name }
  | .runPostedReset => validator.runPostedReset

def after (validator : Validator) (history : List Action) : Validator :=
  history.foldl (perform crypto) validator

/-- What the checks of a history report -/
def outcomes (validator : Validator) : List Action → List Outcome
  | [] => []
  | action :: rest =>
      let later := outcomes (validator.perform crypto action) rest
      match action with
      | .check files now checked => (validator.check crypto files now checked).1 :: later
      | _ => later

/-- Whatever happens later, the packets are decided alike, and the anchors and the rules are the
same. -/
def Alike (first second : Validator) : Prop :=
  ∀ later, outcomes crypto first later = outcomes crypto second later ∧
    (first.after crypto later).trustAnchors = (second.after crypto later).trustAnchors ∧
    (first.after crypto later).config.interestRules =
      (second.after crypto later).config.interestRules ∧
    (first.after crypto later).config.dataRules = (second.after crypto later).config.dataRules

variable {crypto}

/-- What happens to the certificate cache does not matter. -/
theorem follows_withCache {certificateCache : List (Name × PublicKey)} {postedResets : ℕ}
    (hfollows : Follows fresh validator) :
    Follows fresh { validator with
      certificateCache := certificateCache, postedResets := postedResets } := by
  have hcleared := congrArg (fun cleared : Validator ↦ { cleared with
    certificateCache := certificateCache, postedResets := postedResets }) hfollows
  exact hcleared

theorem follows_perform (crypto : Crypto) (action : Action) (hfollows : Follows fresh validator) :
    Follows fresh (validator.perform crypto action) ∧
      (validator.perform crypto action).config.shouldValidate =
        (validator.config.shouldValidate && !action.disables) := by
  cases action with
  | load loading =>
    have hclear := clear_load loading validator
    have hswitch : (validator.load loading).1.config.shouldValidate =
        (validator.config.shouldValidate && !disables loading) :=
      congrArg (·.config.shouldValidate) hclear
    have hcache : (validator.load loading).1.certificateCache =
        (validator.resetCertificateCache loading.inIoService).certificateCache :=
      congrArg (·.certificateCache) hclear
    have hposted : (validator.load loading).1.postedResets =
        (validator.resetCertificateCache loading.inIoService).postedResets :=
      congrArg (·.postedResets) hclear
    have htimestamps : (validator.load loading).1.lastTimestamp =
        (validator.resetCertificateCache loading.inIoService).lastTimestamp :=
      congrArg (·.lastTimestamp) hclear
    refine ⟨?_, hswitch⟩
    change (validator.load loading).1.clear = _
    rw [hclear, hfollows]
    simp only [perform, withSwitch, hswitch, hcache, hposted, htimestamps]
  | check files now checked =>
    have hconfig : (validator.check crypto files now checked).2.config = validator.config := by
      cases checked <;> rfl
    have hclear : (validator.check crypto files now checked).2.clear =
        validator.clear.withSwitch validator.config.shouldValidate
          (validator.check crypto files now checked).2 := by
      cases checked <;> rfl
    refine ⟨?_, by simp [perform, hconfig, Action.disables]⟩
    change (validator.check crypto files now checked).2.clear = _
    rw [hclear, hfollows]
    simp only [perform, hconfig]
    rfl
  | insertCertificate name publicKey =>
    exact ⟨follows_withCache hfollows, by simp [perform, Action.disables]⟩
  | removeCertificate name =>
    exact ⟨follows_withCache hfollows, by simp [perform, Action.disables]⟩
  | runPostedReset =>
    simp only [perform, runPostedReset, removeAll, Action.disables, Bool.not_false, Bool.and_true]
    split_ifs
    · exact ⟨hfollows, rfl⟩
    · exact ⟨follows_withCache hfollows, rfl⟩

/-- Over a whole history the switch is on as long as no configuration has turned it off. -/
theorem follows_after (crypto : Crypto) (history : List Action) (hfresh : Follows fresh validator) :
    Follows fresh (validator.after crypto history) ∧
      (validator.after crypto history).config.shouldValidate =
        (validator.config.shouldValidate && history.all fun action ↦ !action.disables) := by
  induction history generalizing validator with
  | nil => exact ⟨hfresh, by simp [after]⟩
  | cons action rest ih =>
    obtain ⟨hnext, hswitch⟩ := follows_perform crypto action hfresh
    obtain ⟨hfollows, hall⟩ := ih hnext
    refine ⟨hfollows, hall.trans ?_⟩
    rw [hswitch, List.all_cons, Bool.and_assoc]

def unsigned : Check := .interest { name := [] } 0 0 0

theorem check_unsigned (files : Files) (now : ℤ) :
    (validator.check crypto files now unsigned).1 =
      if validator.config.shouldValidate then
        .call (.failed ("Interest is not signed: " ++ Name.toUri []))
      else .call .validated := by
  cases hswitch : validator.config.shouldValidate <;>
    simp [check, unsigned, ValidatorConfig.checkPolicyInterest, hswitch, SignedInterest.minLength]

theorem alike_iff {first second : Bool} :
    Alike crypto (fresh.withSwitch first other) (fresh.withSwitch second other) ↔
      first = second := by
  constructor
  · intro halike
    let files : Files := ⟨fun file _ ↦ file, fun _ ↦ none, fun _ ↦ none, fun _ ↦ ⟨[], none⟩⟩
    have hsame := (halike [.check files 0 unsigned]).1
    simp only [outcomes, check_unsigned, List.cons.injEq, and_true] at hsame
    cases first <;> cases second <;> simp [withSwitch, Outcome.call] at hsame ⊢
  · rintro rfl later
    exact ⟨rfl, rfl, rfl, rfl⟩

/-! ## Posted resets -/

/-- The `io_service` has run every posted reset of the certificate cache. -/
def settled (validator : Validator) : Validator :=
  if validator.postedResets = 0 then validator
  else { validator.removeAll with postedResets := 0 }

theorem after_replicate_runPostedReset (crypto : Crypto) (validator : Validator) :
    validator.after crypto (List.replicate validator.postedResets .runPostedReset) =
      validator.settled := by
  induction hposted : validator.postedResets generalizing validator with
  | zero => simp [settled, hposted, after]
  | succ remaining ih =>
    have hnext : (validator.perform crypto .runPostedReset).postedResets = remaining := by
      simp [perform, runPostedReset, hposted]
    rw [List.replicate_succ]
    change (validator.perform crypto .runPostedReset).after crypto _ = _
    rw [ih _ hnext]
    unfold settled
    simp only [hnext, hposted]
    split_ifs with hlast
    all_goals simp_all [perform, runPostedReset, removeAll]

theorem settled_withSwitch (inIoService : Bool) (fresh validator : Validator) :
    (fresh.withSwitch shouldValidate (validator.resetCertificateCache inIoService)).settled =
      fresh.withSwitch shouldValidate
        { validator with certificateCache := [], postedResets := 0 } := by
  unfold settled
  cases inIoService with
  | false => simp [withSwitch, resetCertificateCache, removeAll]
  | true =>
    split_ifs with hposted
    · have hzero : validator.postedResets = 0 := hposted
      simp [withSwitch, resetCertificateCache, removeAll, hzero]
    · rfl

theorem alike_settled_iff (crypto : Crypto) (inIoService : Bool)
    (fresh validator other : Validator) (first second : Bool) :
    Alike crypto
        (fresh.withSwitch first (validator.resetCertificateCache inIoService)).settled
        { (fresh.withSwitch second (other.resetCertificateCache inIoService)).settled with
          lastTimestamp := validator.lastTimestamp } ↔
      first = second := by
  rw [settled_withSwitch, settled_withSwitch]
  let cleared : Validator := { validator with certificateCache := [], postedResets := 0 }
  change Alike crypto (fresh.withSwitch first cleared) (fresh.withSwitch second cleared) ↔ _
  exact alike_iff

variable {used : Validator}

theorem load_forgets_of_follows (crypto : Crypto) (hfresh : fresh.clear = fresh)
    (hfollows : Follows fresh validator) (hload : validator.load loading = (used, none)) :
    ∃ loaded, fresh.load loading = (loaded, none) ∧
      (used.trustAnchors = loaded.trustAnchors ∧
        used.config.interestRules = loaded.config.interestRules ∧
        used.config.dataRules = loaded.config.dataRules) ∧
      (loading.inIoService = true → used.certificateCache = loaded.certificateCache) ∧
      (Alike crypto used.settled { loaded.settled with lastTimestamp := used.lastTimestamp } ↔
        (validator.config.shouldValidate && !disables loading) =
          (fresh.config.shouldValidate && !disables loading)) := by
  have hloaded := load_of_follows loading hfresh (show Follows fresh fresh from hfresh)
  have hused := load_of_follows loading hfresh hfollows
  rw [hload] at hused
  obtain ⟨rfl, hreturns⟩ := Prod.mk.inj hused
  refine ⟨_, Prod.ext rfl hreturns.symm, ⟨rfl, rfl, rfl⟩, fun hin ↦ ?_, ?_⟩
  · have hcache : (fresh.load loading).1.certificateCache = _ :=
      congrArg (·.1.certificateCache) hloaded
    rw [hcache]
    simp [withSwitch, resetCertificateCache, removeAll, hin]
  · have halike := alike_settled_iff crypto loading.inIoService (fresh.load loading).1 validator
      fresh (validator.config.shouldValidate && !disables loading)
      (fresh.config.shouldValidate && !disables loading)
    have hswitched : (fresh.load loading).1 = _ := congrArg Prod.fst hloaded
    dsimp only at hswitched
    rw [← hswitched] at halike
    have htimestamps (switch : Bool) : ((fresh.load loading).1.withSwitch switch
        (validator.resetCertificateCache loading.inIoService)).lastTimestamp =
          validator.lastTimestamp := by
      cases loading.inIoService <;> rfl
    rw [htimestamps]
    exact halike

def trustAny : Loading := loadingOf [trustAnchor [property "type" "any"]]

/-- The certificate that signs is cached. -/
def cacheKey : Action := .insertCertificate [.generic [75]] [7]

/-- Every signature verifies. -/
def anyCrypto : Crypto := ⟨fun _ _ _ ↦ true, fun _ _ ↦ true⟩

end Validator

end NdnCxx
