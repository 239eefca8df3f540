import Mathlib.Data.List.Perm.Basic
import NdnCxx.Packet.WireErrors
import NdnCxx.Security.ValidatorChains

/-!
# Every validation comes to an end

Each call of `validate` owns either one outstanding Interest or one report, as long as no exception
escapes. The handlers of `checkPolicy` catch what derives from `tlv::Error`; decoding a certificate
can also throw `PublicKey::Error` and exceptions of the libraries, a rule may throw, and so does the
face for an Interest that is too large. A run in which no check meets one of these keeps the account:
what is outstanding, what was reported, and how many Interests were expressed.
-/

namespace NdnCxx.ValidatorRegex

open Validation

variable {Rule Objects : Type*} {validator : ValidatorRegex Rule Objects}

/-! ## What a validation owns -/

/-- The members of a state that answer for the calls of `validate`. -/
structure Obligations where
  nextValidation : ℕ
  pending : List Pending
  reports : List Report
  expressed : List ℕ
  escaped : List Thrown

def State.obligations (state : State Objects) : Obligations where
  nextValidation := state.nextValidation
  pending := state.pending
  reports := state.reports
  expressed := state.expressed
  escaped := state.escaped

def Obligations.addReport (obligations : Obligations) (report : Report) : Obligations :=
  { obligations with reports := obligations.reports ++ [report] }

def Obligations.addPending (obligations : Obligations) (pending : Pending) : Obligations :=
  { obligations with
    pending := obligations.pending ++ [pending]
    expressed := obligations.expressed ++ [pending.request.outer.validation] }

/-- The validation was reported, and nothing else changed. -/
def Concludes (validation : ℕ) (state next : State Objects) : Prop :=
  ∃ report : Report, report.validation = validation ∧
    next.obligations = state.obligations.addReport report

variable {state : State Objects} {callbacks : Callbacks} {data : Packet.Data}
    {started : State Objects} {nSteps : ℤ} {pending : Pending}

theorem concludes_failed (callbacks : Callbacks) (data : Packet.Data) (info : String)
    (hstarted : started.obligations = state.obligations) :
    Concludes callbacks.validation state (callbacks.failed data info started) := by
  obtain ⟨reported, heq⟩ := callbacks.failed_eq data info started
  refine ⟨⟨callbacks.validation, reported, .failed info⟩, rfl, ?_⟩
  rw [heq, ← hstarted]
  rfl

/-! ## Conditions -/

/-- Reporting a packet to the callbacks decodes no certificate with an exception that the handlers do
not catch: not that of the packet, and no other while the signatures verify. -/
def Callbacks.CanReport (validator : ValidatorRegex Rule Objects) (now : ℤ) :
    Callbacks → Packet.Data → Prop
  | .user _, _ => True
  | .key data outer, signCertificate =>
      match Validation.IdentityCertificate.ofData validator.library signCertificate with
      | .error thrown => thrown.isTlvError = true
      | .ok certificate =>
          (!certificate.isTooLate now && !certificate.isTooEarly now) = true →
            validator.verifySignature data certificate.publicKeyInfo = .ok true →
              outer.CanReport validator now data

/-- Checking a packet meets no rule that throws; if the rules accept it and it names a key, reporting
it is possible where a trusted certificate verifies it, and the Interest for an unknown certificate
can be sent. -/
structure CanCheck (validator : ValidatorRegex Rule Objects) (data : Packet.Data)
    (callbacks : Callbacks) (state : State Objects) : Prop where
  mustFail : ∀ thrown,
    (validator.anySatisfied data validator.mustFailVerify state.objects).1 ≠ .error thrown
  verify : ∀ objects thrown,
    validator.anySatisfied data validator.mustFailVerify state.objects = (.ok false, objects) →
      (validator.anySatisfied data validator.verifyPolicies objects).1 ≠ .error thrown
  report : validator.Accepts data state.objects →
    data.signature.info.hasKeyLocator = true → data.signature.info.keyLocator.type = .name →
      ∀ certificate,
        (validator.findCertificate data.signature.info.keyLocator.name state).1 = some certificate →
          validator.library.verifySignature data certificate.publicKeyInfo = .ok true →
            callbacks.CanReport validator state.now data
  fits : validator.Accepts data state.objects → validator.hasFace = true →
    data.signature.info.hasKeyLocator = true → data.signature.info.keyLocator.type = .name →
      (validator.findCertificate data.signature.info.keyLocator.name state).1 = none →
        (interestWire data.signature.info.keyLocator.name 0).length ≤ Tlv.maxNdnPacketSize

/-- The condition on an event; a packet at the step limit is not looked at. -/
def Allowed (validator : ValidatorRegex Rule Objects) (state : State Objects) : Event → Prop
  | .validate data => validator.stepLimit ≠ 0 →
      validator.CanCheck data (.user state.nextValidation) state
  | .answer position data => ∀ pending, state.pending[position]? = some pending →
      validator.stepLimit ≠ pending.request.nSteps →
        validator.CanCheck data pending.request.callbacks state
  | _ => True

/-! ## Checking a packet -/

theorem Validation.verifySignature_onlyTlvErrors (library : CertificateLibrary) (data : Packet.Data)
    (key : PublicKeyInfo) : OnlyTlvErrors (library.verifySignature data key) :=
  .bind data.wireEncode_onlyTlvErrors fun _ ↦
    .bind (Block.Element.size_onlyTlvErrors _) fun _ ↦ .ok _

theorem verifySignature_onlyTlvErrors (validator : ValidatorRegex Rule Objects) (data : Packet.Data)
    (key : PublicKeyInfo) : OnlyTlvErrors (validator.verifySignature data key) :=
  .ite (.ok _) (Validation.verifySignature_onlyTlvErrors _ _ _)

theorem obligations_insertCertificate (validator : ValidatorRegex Rule Objects)
    (certificate : Validation.IdentityCertificate) (state : State Objects) :
    (validator.insertCertificate certificate state).obligations = state.obligations := by
  unfold insertCertificate
  split_ifs
  · rfl
  · rfl

theorem now_insertCertificate (certificate : Validation.IdentityCertificate) (state : State Objects) :
    (validator.insertCertificate certificate state).now = state.now := by
  unfold insertCertificate
  split_ifs
  · rfl
  · rfl

/-- A call returns with the validation reported, or an exception that the handlers catch leaves it
with nothing done. -/
def ReportsOrThrows (validation : ℕ) (state : State Objects) (result : Result Objects) : Prop :=
  (result.2 = none ∧ Concludes validation state result.1) ∨
    ∃ error, result.2 = some (.error error) ∧ error.isTlvError = true ∧
      result.1.obligations = state.obligations

theorem reportsOrThrows_failed (callbacks : Callbacks) (data : Packet.Data) (info : String)
    (hstarted : started.obligations = state.obligations) :
    ReportsOrThrows callbacks.validation state (callbacks.failed data info started, none) :=
  .inl ⟨rfl, concludes_failed callbacks data info hstarted⟩

theorem Callbacks.CanReport.reportsOrThrows (hcan : callbacks.CanReport validator started.now data)
    (hstarted : started.obligations = state.obligations) :
    ReportsOrThrows callbacks.validation state (callbacks.validated validator data started) := by
  induction callbacks generalizing data started with
  | user validation =>
    refine .inl ⟨rfl, ⟨validation, data, .validated⟩, rfl, ?_⟩
    rw [← hstarted]
    rfl
  | key waiting outer ih =>
    have hlogged : (ValidatorRegex.logValidated data started).obligations = state.obligations :=
      hstarted
    change ReportsOrThrows outer.validation state (validator.onCertificateValidated data waiting
      (outer.validated validator) outer.failed (ValidatorRegex.logValidated data started))
    unfold onCertificateValidated
    cases hmade : Validation.IdentityCertificate.ofData validator.library data with
    | error thrown =>
      simp only [CanReport, hmade] at hcan
      cases thrown with
      | error error => exact .inr ⟨error, rfl, hcan, hlogged⟩
      | berDecode => cases hcan
      | publicKey what => cases hcan
      | other what => cases hcan
    | ok certificate =>
      simp only [CanReport, hmade] at hcan
      dsimp only
      split_ifs with hperiod
      · have hinserted := obligations_insertCertificate validator certificate
          (ValidatorRegex.logValidated data started)
        cases hverified : validator.verifySignature waiting certificate.publicKeyInfo with
        | error error =>
          exact .inr ⟨error, rfl, verifySignature_onlyTlvErrors validator waiting _ error hverified,
            hinserted.trans hlogged⟩
        | ok isVerified =>
          cases isVerified with
          | false => exact reportsOrThrows_failed outer waiting _ (hinserted.trans hlogged)
          | true =>
            refine ih ?_ (hinserted.trans hlogged)
            rw [now_insertCertificate]
            exact hcan hperiod hverified
      · exact reportsOrThrows_failed outer waiting _ hlogged

/-- The packet names a certificate that is not known. -/
def NamesUnknown (validator : ValidatorRegex Rule Objects) (data : Packet.Data)
    (state : State Objects) : Prop :=
  data.signature.info.hasKeyLocator = true ∧ data.signature.info.keyLocator.type = .name ∧
    (validator.findCertificate data.signature.info.keyLocator.name state).1 = none

/-- A check reports the validation, or does nothing and returns one request, for a certificate that the
packet names and that is not known. -/
def ReportsOrRequests (validator : ValidatorRegex Rule Objects) (data : Packet.Data) (nSteps : ℤ)
    (callbacks : Callbacks) (state : State Objects) (outcome : Result Objects × List Request) :
    Prop :=
  (outcome.1.2 = none ∧ outcome.2 = [] ∧ Concludes callbacks.validation state outcome.1.1) ∨
    (outcome.1.2 = none ∧
      outcome.2 = [⟨data.signature.info.keyLocator.name, data, callbacks, nSteps + 1⟩] ∧
      outcome.1.1.obligations = state.obligations ∧ validator.NamesUnknown data state)

theorem reportsOrRequests_failed (data : Packet.Data) (nSteps : ℤ) (callbacks : Callbacks)
    (info : String) (hstarted : started.obligations = state.obligations) :
    validator.ReportsOrRequests data nSteps callbacks state
      ((callbacks.failed data info started, none), []) :=
  .inl ⟨rfl, rfl, concludes_failed callbacks data info hstarted⟩

variable {result : Result Objects} {other : State Objects}

/-- The handlers turn what they catch into a report. -/
theorem ReportsOrThrows.handle (hresult : ReportsOrThrows callbacks.validation state result) :
    validator.ReportsOrRequests data nSteps callbacks state
      (ValidatorRegex.handle data callbacks (result, [])) := by
  obtain ⟨next, thrown⟩ := result
  rcases hresult with ⟨hthrown, hconcludes⟩ | ⟨error, hthrown, htlv, hsame⟩
  · obtain rfl : thrown = none := hthrown
    exact .inl ⟨rfl, rfl, hconcludes⟩
  · obtain rfl : thrown = some (.error error) := hthrown
    simp only [ValidatorRegex.handle]
    split_ifs
    · exact reportsOrRequests_failed data nSteps callbacks _ hsame
    · exact reportsOrRequests_failed data nSteps callbacks _ hsame

theorem obligations_findCertificate (validator : ValidatorRegex Rule Objects) (keyLocatorName : Name)
    (state : State Objects) :
    (validator.findCertificate keyLocatorName state).2.obligations = state.obligations ∧
      (validator.findCertificate keyLocatorName state).2.now = state.now := by
  unfold findCertificate
  split
  · exact ⟨rfl, rfl⟩
  · split_ifs
    · exact ⟨rfl, rfl⟩
    · exact ⟨rfl, rfl⟩

/-- The certificate found depends on the trust anchors and the cache alone. -/
theorem findCertificate_congr (validator : ValidatorRegex Rule Objects) (keyLocatorName : Name)
    (htrustAnchors : other.trustAnchors = state.trustAnchors)
    (hcache : other.certificateCache = state.certificateCache) :
    (validator.findCertificate keyLocatorName other).1 =
      (validator.findCertificate keyLocatorName state).1 := by
  unfold findCertificate
  rw [htrustAnchors, hcache]
  split
  · rfl
  · split_ifs
    · rfl
    · rfl

theorem CanCheck.congr (hcan : validator.CanCheck data callbacks state)
    (hobjects : other.objects = state.objects)
    (htrustAnchors : other.trustAnchors = state.trustAnchors)
    (hcache : other.certificateCache = state.certificateCache) (hnow : other.now = state.now) :
    validator.CanCheck data callbacks other := by
  have hfound := findCertificate_congr validator data.signature.info.keyLocator.name
    htrustAnchors hcache
  constructor
  · rw [hobjects]
    exact hcan.mustFail
  · rw [hobjects]
    exact hcan.verify
  · rw [hobjects, hfound, hnow]
    exact hcan.report
  · rw [hobjects, hfound]
    exact hcan.fits

/-- The part of a check inside the `try`; before it only the rule objects and the record of checks
have changed. -/
theorem reportsOrRequests_followKeyLocator (checked : List (Packet.Data × Objects))
    (objects : Objects) (hreport : data.signature.info.hasKeyLocator = true →
      data.signature.info.keyLocator.type = .name → ∀ certificate,
      (validator.findCertificate data.signature.info.keyLocator.name state).1 =
      some certificate →
      validator.library.verifySignature data certificate.publicKeyInfo = .ok true →
      callbacks.CanReport validator state.now data) :
    validator.ReportsOrRequests data nSteps callbacks state
      (handle data callbacks (validator.followKeyLocator data nSteps callbacks
        { state with checked := checked, objects := objects })) := by
  generalize hstate : { state with checked := checked, objects := objects } = started
  have hstarted : started.obligations = state.obligations := by rw [← hstate]; rfl
  have hfound : (validator.findCertificate data.signature.info.keyLocator.name started).1 =
      (validator.findCertificate data.signature.info.keyLocator.name state).1 :=
    findCertificate_congr validator _ (by rw [← hstate]) (by rw [← hstate])
  have hclock : started.now = state.now := by rw [← hstate]
  unfold followKeyLocator
  split_ifs with hmissing htype
  · exact (reportsOrThrows_failed callbacks data _ hstarted).handle
  · exact (reportsOrThrows_failed callbacks data _ hstarted).handle
  · have hhas : data.signature.info.hasKeyLocator = true := by simpa using hmissing
    have hname : data.signature.info.keyLocator.type = .name := not_not.mp htype
    obtain ⟨hsame, hnow⟩ := obligations_findCertificate validator
      data.signature.info.keyLocator.name started
    dsimp only
    cases hfind : validator.findCertificate data.signature.info.keyLocator.name started with
    | mk found next =>
      simp only [hfind] at hsame hnow hfound
      cases found with
      | none => exact .inr ⟨rfl, rfl, hsame.trans hstarted, hhas, hname, hfound.symm⟩
      | some certificate =>
        dsimp only
        cases hverified : validator.library.verifySignature data certificate.publicKeyInfo with
        | error error =>
          have htlv := Validation.verifySignature_onlyTlvErrors _ _ _ error hverified
          have hthrows : ReportsOrThrows callbacks.validation state
              (next, some (.error error)) :=
            .inr ⟨error, rfl, htlv, hsame.trans hstarted⟩
          exact hthrows.handle
        | ok isVerified =>
          cases isVerified with
          | false =>
            exact (reportsOrThrows_failed callbacks data _ (hsame.trans hstarted)).handle
          | true =>
            have hcan := hreport hhas hname certificate hfound.symm hverified
            rw [← hclock, ← hnow] at hcan
            exact (hcan.reportsOrThrows (hsame.trans hstarted)).handle

theorem CanCheck.reportsOrRequests
    (hcan : validator.stepLimit ≠ nSteps → validator.CanCheck data callbacks state) :
    validator.ReportsOrRequests data nSteps callbacks state
        (validator.checkPolicy data nSteps callbacks state) ∧
      ((validator.checkPolicy data nSteps callbacks state).2 ≠ [] →
        validator.stepLimit ≠ nSteps ∧ validator.Accepts data state.objects) := by
  unfold checkPolicy
  split_ifs with hlimit
  · exact ⟨reportsOrRequests_failed data nSteps callbacks _ rfl, fun hrequests ↦ absurd rfl hrequests⟩
  · have hcan := hcan hlimit
    dsimp only
    split
    · rename_i thrown objects hmustFail
      exact absurd (by rw [hmustFail]) (hcan.mustFail thrown)
    · exact ⟨reportsOrRequests_failed data nSteps callbacks _ rfl, fun hrequests ↦ absurd rfl hrequests⟩
    · rename_i between hmustFail
      split
      · rename_i thrown objects hverify
        exact absurd (by rw [hverify]) (hcan.verify between thrown hmustFail)
      · rename_i objects hverify
        have haccepts := validator.accepts_of_anySatisfied hmustFail hverify
        exact ⟨reportsOrRequests_followKeyLocator _ objects (hcan.report haccepts),
          fun _ ↦ ⟨hlimit, haccepts⟩⟩
      · exact ⟨reportsOrRequests_failed data nSteps callbacks _ rfl,
          fun hrequests ↦ absurd rfl hrequests⟩

theorem expressInterest_of_fits (request : Request)
    (hfits : (interestWire request.keyLocatorName 0).length ≤ Tlv.maxNdnPacketSize)
    (remainingRetries : ℕ) (state : State Objects) :
    (expressInterest request remainingRetries state).2 = none ∧
      (expressInterest request remainingRetries state).1.obligations =
        state.obligations.addPending ⟨request, remainingRetries⟩ := by
  have hsmall : ¬ (interestWire request.keyLocatorName 0).length > Tlv.maxNdnPacketSize := by omega
  unfold expressInterest
  split_ifs
  exact ⟨rfl, rfl⟩

theorem expressAll_singleton (request : Request) (state : State Objects) :
    expressAll [request] state = expressInterest request nRetries state := by
  simp only [expressAll]
  split
  · rename_i next hexpress
    exact hexpress.symm
  · rename_i next thrown hexpress
    exact hexpress.symm

/-- A validation step reports, or expresses the Interest for a certificate. -/
theorem CanCheck.validate
    (hcan : validator.stepLimit ≠ nSteps → validator.CanCheck data callbacks state) :
    (validator.validate data nSteps callbacks state).2 = none ∧
      (Concludes callbacks.validation state (validator.validate data nSteps callbacks state).1 ∨
        validator.stepLimit ≠ nSteps ∧ ∃ request : Request,
          request.outer = callbacks ∧ request.nSteps = nSteps + 1 ∧
            (interestWire request.keyLocatorName 0).length ≤ Tlv.maxNdnPacketSize ∧
            (validator.validate data nSteps callbacks state).1.obligations =
              state.obligations.addPending ⟨request, nRetries⟩) := by
  obtain ⟨houtcome, hrequests⟩ := CanCheck.reportsOrRequests hcan
  unfold ValidatorRegex.validate
  generalize validator.checkPolicy data nSteps callbacks state = outcome at houtcome hrequests
  obtain ⟨⟨next, thrown⟩, nextSteps⟩ := outcome
  rcases houtcome with ⟨hthrown, hnone, hconcludes⟩ | ⟨hthrown, hone, hsame, hnames⟩
  · obtain rfl : thrown = none := hthrown
    obtain rfl : nextSteps = [] := hnone
    exact ⟨rfl, .inl hconcludes⟩
  · obtain rfl : thrown = none := hthrown
    obtain rfl : nextSteps =
      [⟨data.signature.info.keyLocator.name, data, callbacks, nSteps + 1⟩] := hone
    obtain ⟨hlimit, haccepts⟩ := hrequests (List.cons_ne_nil _ _)
    simp only [List.isEmpty_cons, Bool.false_eq_true, if_false, afterCheckPolicy]
    cases hface : validator.hasFace with
    | false =>
      simp only [Bool.not_false, if_true]
      exact ⟨trivial, .inl (concludes_failed callbacks data _ hsame)⟩
    | true =>
      have hfits := (hcan hlimit).fits haccepts hface hnames.1 hnames.2.1 hnames.2.2
      simp only [Bool.not_true, Bool.false_eq_true, if_false, expressAll_singleton]
      set request : Request := ⟨data.signature.info.keyLocator.name, data, callbacks, nSteps + 1⟩
        with hrequest
      obtain ⟨hnone, hadded⟩ := expressInterest_of_fits request hfits nRetries next
      rw [hsame] at hadded
      exact ⟨hnone, .inr ⟨hlimit, request, by rw [hrequest], by rw [hrequest], hfits, hadded⟩⟩

/-! ## The account -/

/-- The validations that the reports and the outstanding Interests belong to. -/
def Obligations.owners (obligations : Obligations) : List ℕ :=
  obligations.reports.map Report.validation ++
    obligations.pending.map fun pending ↦ pending.request.outer.validation

/-- An outstanding Interest that can be expressed again, where the Interests expressed for its
validation and those that it may still express fit into the steps made so far. -/
structure IsPaced (validator : ValidatorRegex Rule Objects) (expressed : List ℕ)
    (pending : Pending) : Prop where
  fits : (interestWire pending.request.keyLocatorName 0).length ≤ Tlv.maxNdnPacketSize
  nSteps : pending.request.nSteps ≤ validator.stepLimit
  budget : (expressed.count pending.request.outer.validation : ℤ) + pending.remainingRetries ≤
    pending.request.nSteps * (nRetries + 1)

/-- The account, where `opened` are validations that have neither a report nor an outstanding
Interest. -/
structure IsAccounted (validator : ValidatorRegex Rule Objects) (opened : List ℕ)
    (obligations : Obligations) : Prop where
  owners : (opened ++ obligations.owners).Perm (List.range obligations.nextValidation)
  pending : ∀ pending ∈ obligations.pending, validator.IsPaced obligations.expressed pending
  known : ∀ validation ∈ obligations.expressed, validation < obligations.nextValidation
  expressed : ∀ validation, (obligations.expressed.count validation : ℤ) ≤
    validator.stepLimit * (nRetries + 1)
  escaped : obligations.escaped = []

variable {obligations : Obligations} {validation : ℕ}

section

variable (haccounted : validator.IsAccounted [validation] obligations)
include haccounted

theorem IsAccounted.addReport {report : Report} (hreport : report.validation = validation) :
    validator.IsAccounted [] (obligations.addReport report) where
  owners := by
    have hmoved : (obligations.addReport report).owners.Perm (validation :: obligations.owners) := by
      simp only [Obligations.owners, Obligations.addReport, List.map_append, List.map_cons,
        List.map_nil, hreport, List.append_assoc]
      exact List.perm_middle
    exact hmoved.trans haccounted.owners
  pending := haccounted.pending
  known := haccounted.known
  expressed := haccounted.expressed
  escaped := haccounted.escaped

/-- An open validation owns no other outstanding Interest. -/
theorem IsAccounted.owner_ne (hpending : pending ∈ obligations.pending) :
    pending.request.outer.validation ≠ validation := by
  have hnodup : (validation :: obligations.owners).Nodup :=
    haccounted.owners.nodup_iff.mpr List.nodup_range
  rintro rfl
  apply (List.nodup_cons.mp hnodup).1
  exact List.mem_append_right _ (List.mem_map_of_mem hpending)

theorem IsAccounted.addPending (howner : pending.request.outer.validation = validation)
    (hpaced : validator.IsPaced (obligations.expressed ++ [validation]) pending) :
    validator.IsAccounted [] (obligations.addPending pending) where
  owners := by
    have hmoved : (obligations.addPending pending).owners.Perm (validation :: obligations.owners) := by
      simp only [Obligations.owners, Obligations.addPending, List.map_append, List.map_cons,
        List.map_nil, howner]
      rw [← List.append_assoc]
      exact List.perm_append_singleton _ _
    exact hmoved.trans haccounted.owners
  pending := by
    intro other hother
    simp only [Obligations.addPending, howner] at hother ⊢
    rcases List.mem_append.mp hother with hold | hnew
    · have hne := haccounted.owner_ne hold
      have hkept := haccounted.pending other hold
      refine ⟨hkept.fits, hkept.nSteps, ?_⟩
      rw [List.count_append, List.count_eq_zero_of_not_mem (l := [validation]) (by simpa using hne)]
      simpa using hkept.budget
    · obtain rfl := List.mem_singleton.mp hnew
      exact hpaced
  known := by
    have hlt : validation < obligations.nextValidation :=
      List.mem_range.mp (haccounted.owners.subset (by simp))
    intro other hother
    simp only [Obligations.addPending, howner] at hother
    rcases List.mem_append.mp hother with hold | hnew
    · exact haccounted.known other hold
    · obtain rfl := List.mem_singleton.mp hnew
      exact hlt
  expressed := by
    intro other
    simp only [Obligations.addPending, howner]
    by_cases hother : other = validation
    · have hbudget := hpaced.budget
      have hsteps := hpaced.nSteps
      rw [howner] at hbudget
      rw [hother]
      have hscaled : pending.request.nSteps * (nRetries + 1) ≤ validator.stepLimit * (nRetries + 1) :=
        Int.mul_le_mul_of_nonneg_right hsteps (by omega)
      omega
    · rw [List.count_append, List.count_eq_zero_of_not_mem (l := [validation]) (by simpa using hother)]
      simpa using haccounted.expressed other
  escaped := haccounted.escaped

end

/-- Taking an Interest out opens its validation. -/
theorem IsAccounted.eraseIdx (haccounted : validator.IsAccounted [] obligations) {position : ℕ}
    (hpending : obligations.pending[position]? = some pending) :
    validator.IsAccounted [pending.request.outer.validation]
      { obligations with pending := obligations.pending.eraseIdx position } where
  owners := by
    obtain ⟨hlt, hget⟩ := List.getElem?_eq_some_iff.mp hpending
    have htaken : (pending :: obligations.pending.eraseIdx position).Perm obligations.pending := by
      rw [← hget]
      exact List.getElem_cons_eraseIdx_perm hlt
    have howners := (htaken.map fun pending ↦ pending.request.outer.validation).append_left
      (obligations.reports.map Report.validation)
    exact (List.perm_middle.symm.trans howners).trans haccounted.owners
  pending := fun other hother ↦ haccounted.pending other (List.mem_of_mem_eraseIdx hother)
  known := haccounted.known
  expressed := haccounted.expressed
  escaped := haccounted.escaped

/-- A new validation is open. -/
theorem IsAccounted.next (haccounted : validator.IsAccounted [] obligations) :
    validator.IsAccounted [obligations.nextValidation]
      { obligations with nextValidation := obligations.nextValidation + 1 } where
  owners := by
    have howners : (obligations.nextValidation :: obligations.owners).Perm
        (List.range obligations.nextValidation ++ [obligations.nextValidation]) :=
      (haccounted.owners.cons _).trans (List.perm_append_singleton _ _).symm
    rw [← List.range_succ] at howners
    exact howners
  pending := haccounted.pending
  known := fun other hother ↦ (haccounted.known other hother).trans (Nat.lt_succ_self _)
  expressed := haccounted.expressed
  escaped := haccounted.escaped

/-! ## Runs -/

theorem isAccounted_initial (hlimit : 0 ≤ validator.stepLimit)
    (anchors : List Validation.IdentityCertificate)
    (objects : Objects) (now : ℤ) :
    validator.IsAccounted [] (initial anchors objects now).obligations where
  owners := List.Perm.refl _
  pending := by simp [initial, State.obligations]
  known := by simp [initial, State.obligations]
  expressed := by
    intro validation
    have hbudget : 0 ≤ validator.stepLimit * (nRetries + 1) := Int.mul_nonneg hlimit (by omega)
    simpa [initial, State.obligations] using hbudget
  escaped := rfl

theorem obligations_settle (hnone : result.2 = none) :
    (settle result).obligations = result.1.obligations := by
  simp [settle, State.obligations, hnone]

/-- A validation step closes the validation again. -/
theorem IsAccounted.validate
    (haccounted : validator.IsAccounted [callbacks.validation] state.obligations)
    (hcan : validator.stepLimit ≠ nSteps → validator.CanCheck data callbacks state)
    (hsteps : nSteps ≤ validator.stepLimit)
    (hbudget : (state.expressed.count callbacks.validation : ℤ) ≤ nSteps * (nRetries + 1)) :
    validator.IsAccounted []
      (settle (validator.validate data nSteps callbacks state)).obligations := by
  obtain ⟨hnone, hconcludes | ⟨hlimit, request, houter, hrequestSteps, hfits, hadded⟩⟩ :=
    CanCheck.validate hcan
  · obtain ⟨report, hreport, heq⟩ := hconcludes
    rw [obligations_settle hnone, heq]
    exact haccounted.addReport hreport
  · rw [obligations_settle hnone, hadded]
    refine haccounted.addPending (by rw [houter]) ⟨hfits, ?_, ?_⟩
    · rw [hrequestSteps]
      omega
    · have hcount : state.obligations.expressed = state.expressed := rfl
      rw [houter, hrequestSteps, hcount, List.count_append, List.count_singleton_self]
      push_cast
      have hstep : (nSteps + 1) * ((nRetries : ℤ) + 1) =
          nSteps * (nRetries + 1) + (nRetries + 1) := by ring
      omega

theorem IsAccounted.step {next : State Objects} {event : Event}
    (haccounted : validator.IsAccounted [] state.obligations) (hlimit : 0 ≤ validator.stepLimit)
    (hallowed : validator.Allowed state event) (hstep : validator.step state event = some next) :
    validator.IsAccounted [] next.obligations := by
  cases event with
  | validate data =>
    cases hstep
    have hfresh : state.expressed.count state.nextValidation = 0 := by
      rw [List.count_eq_zero]
      intro hmem
      exact absurd (haccounted.known _ hmem) (Nat.lt_irrefl _)
    refine IsAccounted.validate haccounted.next (fun hne ↦ ?_) hlimit ?_
    · exact CanCheck.congr (hallowed hne) rfl rfl rfl rfl
    · simpa [Callbacks.validation] using hfresh
  | answer position data =>
    obtain ⟨pending, hpending, rfl⟩ := Option.map_eq_some_iff.mp hstep
    have hpaced := haccounted.pending pending (List.mem_of_getElem? hpending)
    refine IsAccounted.validate (haccounted.eraseIdx hpending) (fun hne ↦ ?_) hpaced.nSteps ?_
    · exact CanCheck.congr (hallowed pending hpending hne) rfl rfl rfl rfl
    · have hbudget := hpaced.budget
      change (state.expressed.count pending.request.outer.validation : ℤ) ≤ _
      have hcount : state.obligations.expressed = state.expressed := rfl
      rw [hcount] at hbudget
      omega
  | timeout position =>
    obtain ⟨pending, hpending, rfl⟩ := Option.map_eq_some_iff.mp hstep
    have hpaced := haccounted.pending pending (List.mem_of_getElem? hpending)
    have hopened := haccounted.eraseIdx hpending
    unfold onTimeout
    split_ifs with hretries
    · obtain ⟨hnone, hadded⟩ := expressInterest_of_fits pending.request hpaced.fits
        (pending.remainingRetries - 1) { state with pending := state.pending.eraseIdx position }
      rw [obligations_settle hnone, hadded]
      refine hopened.addPending rfl ⟨hpaced.fits, hpaced.nSteps, ?_⟩
      have hbudget := hpaced.budget
      have hcount : state.obligations.expressed = state.expressed := rfl
      rw [hcount] at hbudget
      change ((state.expressed ++ [pending.request.outer.validation]).count
        pending.request.outer.validation : ℤ) + (pending.remainingRetries - 1 : ℕ) ≤ _
      rw [List.count_append, List.count_singleton_self]
      change _ ≤ pending.request.nSteps * ((nRetries : ℤ) + 1)
      omega
    · rw [obligations_settle rfl]
      obtain ⟨report, hreport, heq⟩ := concludes_failed pending.request.outer pending.request.data
        ("Cannot fetch cert: " ++ pending.request.keyLocatorName.toUri)
        (Eq.refl ({ state with pending := state.pending.eraseIdx position } :
          State Objects).obligations)
      rw [heq]
      exact hopened.addReport hreport
  | setClock now =>
    cases hstep
    exact haccounted
  | elapse duration =>
    cases hstep
    exact haccounted
  | remove index =>
    simp only [ValidatorRegex.step] at hstep
    split at hstep
    · cases hstep
    · split_ifs at hstep
      cases hstep
      exact haccounted

/-- The reports and the outstanding Interests of a validation are one, no exception escaped, and the
Interests expressed for it are within the limit. -/
structure IsServed (validator : ValidatorRegex Rule Objects) (state : State Objects)
    (validation : ℕ) : Prop where
  owned : (state.reports.filter fun report ↦ report.validation = validation).length +
    (state.pending.filter fun pending ↦
      pending.request.outer.validation = validation).length = 1
  escaped : state.escaped = []
  expressed : (state.expressed.count validation : ℤ) ≤ validator.stepLimit * (nRetries + 1)

theorem IsAccounted.isServed (haccounted : validator.IsAccounted [] state.obligations)
    (hvalidation : validation < state.nextValidation) : validator.IsServed state validation where
  owned := by
    have hcount : (state.obligations.owners).count validation = 1 := by
      have hperm : state.obligations.owners.Perm (List.range state.nextValidation) := haccounted.owners
      rw [hperm.count_eq]
      exact List.count_eq_one_of_mem List.nodup_range (List.mem_range.mpr hvalidation)
    simp only [Obligations.owners, State.obligations, List.count_append] at hcount
    rw [List.count_eq_countP, List.count_eq_countP, List.countP_map, List.countP_map,
      List.countP_eq_length_filter, List.countP_eq_length_filter] at hcount
    simpa [Function.comp_def, beq_eq_decide] using hcount
  escaped := haccounted.escaped
  expressed := haccounted.expressed validation

/-- In a run in which every check meets the conditions, each validation is served in every state that
is reached. -/
theorem isServed_of_guarded (validator : ValidatorRegex Rule Objects)
    (hlimit : 0 ≤ validator.stepLimit) (anchors : List Validation.IdentityCertificate) (objects : Objects)
    (now : ℤ) {events : List Event} {finish : State Objects}
    (hguarded : Run.Guarded validator.step validator.Allowed (initial anchors objects now) events)
    (hrun : Run.run validator.step (initial anchors objects now) events = some finish)
    (hvalidation : validation < finish.nextValidation) : validator.IsServed finish validation := by
  have haccounted : validator.IsAccounted [] finish.obligations :=
    Run.invariant_of_guarded (fun _ state ↦ validator.IsAccounted [] state.obligations)
      (fun _ _ _ _ haccounted hallowed hstep ↦ haccounted.step hlimit hallowed hstep)
      (isAccounted_initial hlimit anchors objects now) hguarded hrun
  exact haccounted.isServed hvalidation

/-- The Interest for the signer's certificate times out once and is expressed again. -/
theorem isServed_of_guarded_timeout :
    ∃ finish, Run.run (permissive rsaCertificate).step (initial [rootAnchor] () 0)
        [.validate signedData, .timeout 0] = some finish ∧
      (permissive rsaCertificate).IsServed finish 0 := by
  have hnext : (Run.run (permissive rsaCertificate).step (initial [rootAnchor] () 0)
      [.validate signedData, .timeout 0]).map State.nextValidation = some 1 := by
    decide +kernel
  obtain ⟨finish, hrun, hnext⟩ := Option.map_eq_some_iff.mp hnext
  have hunknown : ((permissive rsaCertificate).findCertificate
      signedData.signature.info.keyLocator.name (initial [rootAnchor] () 0)).1 = none := by
    decide +kernel
  have hcan : (permissive rsaCertificate).CanCheck signedData (.user 0)
      (initial [rootAnchor] () 0) := by
    constructor
    · exact fun thrown hthrown ↦ nomatch hthrown
    · exact fun objects thrown _ hthrown ↦ nomatch hthrown
    · intro _ _ _ certificate hfound
      rw [hunknown] at hfound
      cases hfound
    · intro _ _ _ _ _
      decide +kernel
  have hguarded : Run.Guarded (permissive rsaCertificate).step (permissive rsaCertificate).Allowed
      (initial [rootAnchor] () 0) [.validate signedData, .timeout 0] :=
    ⟨fun _ ↦ hcan, fun _ _ ↦ ⟨trivial, fun _ _ ↦ trivial⟩⟩
  exact ⟨finish, hrun, isServed_of_guarded (permissive rsaCertificate) (by decide) [rootAnchor] () 0
    hguarded hrun (by omega)⟩

/-- A certificate with a key of another algorithm, signed under the anchor: `PublicKey::Error` escapes,
nothing is outstanding, and nothing is reported. -/
theorem not_isServed_unsupported_key :
    ∃ finish, Run.run (permissive (certificateOf [1, 2])).step (initial [rootAnchor] () 0)
        [.validate signedData, .answer 0 signerCertificate] = some finish ∧
      0 < finish.nextValidation ∧ ¬ (permissive (certificateOf [1, 2])).IsServed finish 0 ∧
      finish.reports = [] ∧ finish.pending = [] ∧ finish.escaped =
        [.publicKey "Only RSA/ECDSA public keys are supported for now (1.2 requested)"] := by
  have hstate : (Run.run (permissive (certificateOf [1, 2])).step (initial [rootAnchor] () 0)
      [.validate signedData, .answer 0 signerCertificate]).map
        (fun finish ↦ (finish.nextValidation, finish.reports, finish.pending, finish.escaped)) =
      some (1, [], [],
        [.publicKey "Only RSA/ECDSA public keys are supported for now (1.2 requested)"]) := by
    decide +kernel
  obtain ⟨finish, hrun, hmembers⟩ := Option.map_eq_some_iff.mp hstate
  simp only [Prod.mk.injEq] at hmembers
  obtain ⟨hnext, hreports, hpending, hescaped⟩ := hmembers
  refine ⟨finish, hrun, by omega, fun hserved ↦ ?_, hreports, hpending, hescaped⟩
  have howned := hserved.owned
  rw [hreports, hpending] at howned
  cases howned

end NdnCxx.ValidatorRegex
