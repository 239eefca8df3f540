import NdnCxx.Foundation.Endorsement
import NdnCxx.Security.ValidatorRegex

/-!
# What a validator trusts

Whatever a `ValidatorRegex` reports as validated is endorsed by a chain of packets up to a trust
anchor. The invariant is about everything that outlives one event: the cached certificates, which
were fetched, validated and within their validity period then, and the packets in the callbacks of
the outstanding Interests, which the rules have accepted. The conditions of a chain are read off the
record of the run, which only grows, so an endorsement holds for the rest of the run.
-/

namespace NdnCxx.ValidatorRegex

open Validation

variable {Rule Objects : Type*} (validator : ValidatorRegex Rule Objects)

/-! ## Rules -/

/-- The answers of the rules that are asked one after the other, and the rule objects behind them. -/
def ask (data : Packet.Data) : List Rule → Objects → List (Except Thrown Bool) × Objects
  | [], objects => ([], objects)
  | rule :: rules, objects =>
      let (answer, next) := validator.satisfy rule data objects
      let (answers, last) := ask data rules next
      (answer :: answers, last)

/-- Asked in their turn, no rule that must fail is satisfied, and some positive rule is. -/
structure Accepts (data : Packet.Data) (objects : Objects) : Prop where
  mustFail : ∀ answer ∈ (validator.ask data validator.mustFailVerify objects).1, answer = .ok false
  verify : .ok true ∈ (validator.ask data validator.verifyPolicies
    (validator.ask data validator.mustFailVerify objects).2).1

variable {data : Packet.Data} {callbacks : Callbacks} {certificate : Validation.IdentityCertificate}
    {objects : Objects} {nSteps : ℤ} {rules : List Rule}

theorem ask_of_anySatisfied_false {next : Objects}
    (hasked : validator.anySatisfied data rules objects = (.ok false, next)) :
    (∀ answer ∈ (validator.ask data rules objects).1, answer = .ok false) ∧
      (validator.ask data rules objects).2 = next := by
  induction rules generalizing objects with
  | nil =>
    cases hasked
    exact ⟨by simp [ask], rfl⟩
  | cons rule rules ih =>
    rw [anySatisfied] at hasked
    split at hasked
    · rename_i objects' hrule
      obtain ⟨hanswers, hlast⟩ := ih hasked
      simp only [ask, hrule, List.forall_mem_cons]
      exact ⟨⟨trivial, hanswers⟩, hlast⟩
    · rename_i answer objects' hnot hrule
      cases hasked
      exact absurd rfl hnot

theorem ask_of_anySatisfied_true {next : Objects}
    (hasked : validator.anySatisfied data rules objects = (.ok true, next)) :
    .ok true ∈ (validator.ask data rules objects).1 := by
  induction rules generalizing objects with
  | nil => cases hasked
  | cons rule rules ih =>
    rw [anySatisfied] at hasked
    split at hasked
    · rename_i objects' hrule
      simp only [ask, hrule]
      exact List.mem_cons_of_mem _ (ih hasked)
    · rename_i answer objects' hnot hrule
      have hanswer : (validator.satisfy rule data objects).1 = .ok true := by rw [hrule, hasked]
      simp only [ask, hanswer]
      exact List.mem_cons_self

theorem accepts_of_anySatisfied {between next : Objects}
    (hmustFail : validator.anySatisfied data validator.mustFailVerify objects = (.ok false,
      between))
    (hverify : validator.anySatisfied data validator.verifyPolicies between = (.ok true, next)) :
    validator.Accepts data objects := by
  obtain ⟨hanswers, hlast⟩ := validator.ask_of_anySatisfied_false hmustFail
  refine ⟨hanswers, ?_⟩
  rw [hlast]
  exact validator.ask_of_anySatisfied_true hverify

/-! ## Endorsements in a run -/

variable (anchors : List Validation.IdentityCertificate)

/-- Chains of packets as the record of a state has them: the rules accepted every packet when they
were asked, a signature verifies under the key of the certificate that the signer is decoded as, a
signer was itself validated within its validity period, and the roots are the trust anchors. -/
def authority (state : State Objects) : Authority Packet.Data where
  admits data := ∃ objects, (data, objects) ∈ state.checked ∧ validator.Accepts data objects
  maySign signer := ∃ certificate time,
    Validation.IdentityCertificate.ofData validator.library signer = .ok certificate ∧
      (signer, time) ∈ state.validated ∧
      certificate.notBefore ≤ time ∧ time ≤ certificate.notAfter
  signs signer data := ∃ certificate,
    Validation.IdentityCertificate.ofData validator.library signer = .ok certificate ∧
      validator.library.verifySignature data certificate.publicKeyInfo = .ok true
  rootSigns data := ∃ anchor ∈ anchors,
    validator.library.verifySignature data anchor.publicKeyInfo = .ok true

/-- The record of a state is part of the record of a later one. -/
structure Remembers (state next : State Objects) : Prop where
  checked : state.checked ⊆ next.checked
  validated : state.validated ⊆ next.validated

theorem Remembers.isExtendedBy {state next : State Objects} (hremembers : Remembers state next) :
    (validator.authority anchors state).IsExtendedBy (validator.authority anchors next) where
  admits := fun _ ⟨objects, hchecked, haccepts⟩ ↦
    ⟨objects, hremembers.checked hchecked, haccepts⟩
  maySign := fun _ ⟨certificate, time, hmade, hvalidated, hperiod⟩ ↦
    ⟨certificate, time, hmade, hremembers.validated hvalidated, hperiod⟩
  signs := fun _ _ hsigns ↦ hsigns
  rootSigns := fun _ hroot ↦ hroot

/-- Every packet in the callbacks was accepted by the rules. -/
def Callbacks.AreAdmitted (state : State Objects) : Callbacks → Prop
  | .user _ => True
  | .key data outer => (validator.authority anchors state).admits data ∧ outer.AreAdmitted state

/-- A certificate made from a packet that was endorsed and may sign. -/
structure IsFetched (state : State Objects) (certificate : Validation.IdentityCertificate) :
    Prop where
  made : Validation.IdentityCertificate.ofData validator.library certificate.data = .ok certificate
  maySign : (validator.authority anchors state).maySign certificate.data
  endorsed : (validator.authority anchors state).Endorses certificate.data

/-- What holds in every state of a run. -/
structure IsSound (state : State Objects) : Prop where
  trustAnchors : ∀ name certificate,
    state.trustAnchors.find name = some (some certificate) → certificate ∈ anchors
  certificateCache : ∀ name certificate removal,
    state.certificateCache.find name = some (certificate, removal) →
      validator.IsFetched anchors state certificate
  pending : ∀ pending ∈ state.pending,
    pending.request.callbacks.AreAdmitted validator anchors state
  reports : ∀ report ∈ state.reports, report.call = .validated →
    (validator.authority anchors state).Endorses report.data

variable {validator anchors} {state next : State Objects}

theorem Callbacks.AreAdmitted.mono (hremembers : Remembers state next)
    (hadmitted : callbacks.AreAdmitted validator anchors state) :
    callbacks.AreAdmitted validator anchors next := by
  induction callbacks with
  | user validation => trivial
  | key data outer ih =>
    exact ⟨(hremembers.isExtendedBy validator anchors).admits _ hadmitted.1, ih hadmitted.2⟩

theorem IsFetched.mono (hremembers : Remembers state next)
    (hfetched : validator.IsFetched anchors state certificate) :
    validator.IsFetched anchors next certificate where
  made := hfetched.made
  maySign := (hremembers.isExtendedBy validator anchors).maySign _ hfetched.maySign
  endorsed := hfetched.endorsed.mono (hremembers.isExtendedBy validator anchors)

/-- A later state is sound if what is new in it is. -/
theorem IsSound.of_new (hsound : validator.IsSound anchors state) (hremembers : Remembers state next)
    (htrustAnchors : ∀ name certificate, next.trustAnchors.find name = some (some certificate) →
      state.trustAnchors.find name = some (some certificate))
    (hcache : ∀ name entry, next.certificateCache.find name = some entry →
      state.certificateCache.find name = some entry ∨ validator.IsFetched anchors next entry.1)
    (hpending : ∀ pending ∈ next.pending, pending ∈ state.pending ∨
      pending.request.callbacks.AreAdmitted validator anchors next)
    (hreports : ∀ report ∈ next.reports, report ∈ state.reports ∨ (report.call = .validated →
      (validator.authority anchors next).Endorses report.data)) :
    validator.IsSound anchors next where
  trustAnchors name certificate hfind :=
    hsound.trustAnchors name certificate (htrustAnchors name certificate hfind)
  certificateCache := by
    intro name certificate removal hfind
    rcases hcache name _ hfind with hold | hnew
    · exact (hsound.certificateCache name certificate removal hold).mono hremembers
    · exact hnew
  pending := by
    intro pending hmem
    rcases hpending pending hmem with hold | hnew
    · exact (hsound.pending pending hold).mono hremembers
    · exact hnew
  reports := by
    intro report hmem hvalidated
    rcases hreports report hmem with hold | hnew
    · exact (hsound.reports report hold hvalidated).mono (hremembers.isExtendedBy validator anchors)
    · exact hnew hvalidated

/-! ## Callbacks -/

theorem remembers_failed (callbacks : Callbacks) (data : Packet.Data) (info : String)
    (state : State Objects) : Remembers state (callbacks.failed data info state) := by
  obtain ⟨reported, heq⟩ := callbacks.failed_eq data info state
  rw [heq]
  exact ⟨List.Subset.refl _, List.Subset.refl _⟩

theorem IsSound.failed (hsound : validator.IsSound anchors state) (callbacks : Callbacks)
    (data : Packet.Data) (info : String) :
    validator.IsSound anchors (callbacks.failed data info state) := by
  have hremembers := remembers_failed callbacks data info state
  obtain ⟨reported, heq⟩ := callbacks.failed_eq data info state
  rw [heq] at hremembers ⊢
  refine hsound.of_new hremembers (fun _ _ hfind ↦ hfind) (fun _ _ hfind ↦ .inl hfind)
    (fun _ hmem ↦ .inl hmem) ?_
  intro report hmem
  rcases List.mem_append.mp hmem with hold | hnew
  · exact .inl hold
  · obtain rfl := List.mem_singleton.mp hnew
    exact .inr fun hcall ↦ nomatch hcall

theorem remembers_insertCertificate (validator : ValidatorRegex Rule Objects)
    (certificate : Validation.IdentityCertificate) (state : State Objects) :
    Remembers state (validator.insertCertificate certificate state) := by
  unfold insertCertificate
  split_ifs
  all_goals exact ⟨List.Subset.refl _, List.Subset.refl _⟩

theorem IsSound.insertCertificate (hsound : validator.IsSound anchors state)
    (hfetched : validator.IsFetched anchors state certificate) :
    validator.IsSound anchors (validator.insertCertificate certificate state) := by
  have hremembers := remembers_insertCertificate validator certificate state
  have hfetched := hfetched.mono hremembers
  unfold ValidatorRegex.insertCertificate at hremembers hfetched ⊢
  split_ifs at hremembers hfetched ⊢ with hcache
  · refine hsound.of_new hremembers (fun _ _ hfind ↦ hfind) ?_ (fun _ hmem ↦ .inl hmem)
      (fun _ hmem ↦ .inl hmem)
    intro name entry hfind
    rw [OrderedMap.find_assign] at hfind
    split_ifs at hfind with hname
    · cases hfind
      exact .inr hfetched
    · exact .inl hfind
  · exact hsound

def logValidated (data : Packet.Data) (state : State Objects) : State Objects :=
  { state with validated := state.validated ++ [(data, state.now)] }

theorem remembers_logValidated (data : Packet.Data) (state : State Objects) :
    Remembers state (logValidated data state) :=
  ⟨List.Subset.refl _, List.subset_append_left _ _⟩

theorem IsSound.logValidated (hsound : validator.IsSound anchors state) (data : Packet.Data) :
    validator.IsSound anchors (logValidated data state) :=
  hsound.of_new (remembers_logValidated data state) (fun _ _ hfind ↦ hfind)
    (fun _ _ hfind ↦ .inl hfind) (fun _ hmem ↦ .inl hmem) (fun _ hmem ↦ .inl hmem)

theorem verifySignature_of_hasKeyLocator {key : PublicKeyInfo}
    (hverified : validator.verifySignature data key = .ok true) :
    validator.library.verifySignature data key = .ok true := by
  unfold ValidatorRegex.verifySignature at hverified
  split_ifs at hverified with hmissing
  · cases hverified
  · exact hverified

/-- A certificate that is within its validity period when its packet is reported can be used. -/
theorem isFetched_of_validated {signer : Packet.Data}
    (hendorsed : (validator.authority anchors state).Endorses signer)
    (hmade : Validation.IdentityCertificate.ofData validator.library signer = .ok certificate)
    (hperiod : (!certificate.isTooLate state.now && !certificate.isTooEarly state.now) = true) :
    validator.IsFetched anchors (logValidated signer state) certificate := by
  obtain rfl := Validation.IdentityCertificate.data_of_ofData validator.library hmade
  have hremembers := remembers_logValidated certificate.data state
  have hnow : (certificate.data, state.now) ∈ (logValidated certificate.data state).validated := by
    simp [ValidatorRegex.logValidated]
  have hwithin : certificate.notBefore ≤ state.now ∧ state.now ≤ certificate.notAfter := by
    simpa [Validation.IdentityCertificate.isTooLate, Validation.IdentityCertificate.isTooEarly,
      and_comm] using hperiod
  exact
    { made := hmade
      maySign := ⟨certificate, state.now, hmade, hnow, hwithin⟩
      endorsed := hendorsed.mono (hremembers.isExtendedBy validator anchors) }

/-- An endorsed packet may be reported to callbacks whose packets are admitted: a signer that is within
its validity period endorses the packet that waits for it. -/
theorem IsSound.validated (hsound : validator.IsSound anchors state)
    (hendorsed : (validator.authority anchors state).Endorses data)
    (hadmitted : callbacks.AreAdmitted validator anchors state) :
    validator.IsSound anchors (callbacks.validated validator data state).1 := by
  induction callbacks generalizing data state with
  | user validation =>
    have hremembers := remembers_logValidated data state
    have hreported := hendorsed.mono (hremembers.isExtendedBy validator anchors)
    refine hsound.of_new ⟨hremembers.checked, hremembers.validated⟩ (fun _ _ hfind ↦ hfind)
      (fun _ _ hfind ↦ .inl hfind) (fun _ hmem ↦ .inl hmem) ?_
    intro report hmem
    rcases List.mem_append.mp hmem with hold | hnew
    · exact .inl hold
    · obtain rfl := List.mem_singleton.mp hnew
      exact .inr fun _ ↦ hreported
  | key waiting outer ih =>
    have hlogged := hsound.logValidated data
    have hwaiting := hadmitted.mono (remembers_logValidated data state)
    change validator.IsSound anchors (validator.onCertificateValidated data waiting
      (outer.validated validator) outer.failed (ValidatorRegex.logValidated data state)).1
    unfold onCertificateValidated
    cases hmade : Validation.IdentityCertificate.ofData validator.library data with
    | error thrown => exact hlogged
    | ok certificate =>
      dsimp only
      split_ifs with hperiod
      · have hfetched := isFetched_of_validated hendorsed hmade hperiod
        have hinserted := hlogged.insertCertificate hfetched
        have hremembers := remembers_insertCertificate validator certificate
          (ValidatorRegex.logValidated data state)
        cases hverified : validator.verifySignature waiting certificate.publicKeyInfo with
        | error error => exact hinserted
        | ok isVerified =>
          cases isVerified with
          | false => exact hinserted.failed outer waiting _
          | true =>
            have hsigns : (validator.authority anchors
                (ValidatorRegex.logValidated data state)).signs data waiting :=
              ⟨certificate, hmade, verifySignature_of_hasKeyLocator hverified⟩
            have hdata := Validation.IdentityCertificate.data_of_ofData validator.library hmade
            have hvouched : (validator.authority anchors
                (ValidatorRegex.logValidated data state)).Endorses waiting :=
              .signer hwaiting.1 hsigns (hdata ▸ hfetched.maySign) (hdata ▸ hfetched.endorsed)
            exact ih hinserted (hvouched.mono (hremembers.isExtendedBy validator anchors))
              (hwaiting.2.mono hremembers)
      · exact hlogged.failed outer waiting _

/-! ## Policy -/

/-- A trusted certificate is an anchor, or was fetched. -/
theorem IsSound.findCertificate (hsound : validator.IsSound anchors state) (keyLocatorName : Name) :
    validator.IsSound anchors (validator.findCertificate keyLocatorName state).2 ∧
      Remembers state (validator.findCertificate keyLocatorName state).2 ∧
      ∀ certificate, (validator.findCertificate keyLocatorName state).1 = some certificate →
        certificate ∈ anchors ∨ validator.IsFetched anchors state certificate := by
  have hself : Remembers state state := ⟨List.Subset.refl _, List.Subset.refl _⟩
  unfold ValidatorRegex.findCertificate
  cases hanchor : state.trustAnchors.find keyLocatorName with
  | some found =>
    refine ⟨hsound, hself, fun certificate hfound ↦ .inl ?_⟩
    obtain rfl : found = some certificate := hfound
    exact hsound.trustAnchors keyLocatorName certificate hanchor
  | none =>
    dsimp only
    split_ifs with hcache
    · refine ⟨hsound, hself, fun certificate hfound ↦ .inr ?_⟩
      obtain ⟨⟨cached, removal⟩, hfind, rfl⟩ := Option.map_eq_some_iff.mp hfound
      exact hsound.certificateCache keyLocatorName cached removal hfind
    · refine ⟨?_, ⟨List.Subset.refl _, List.Subset.refl _⟩,
        fun certificate hfound ↦ by cases hfound⟩
      refine hsound.of_new ⟨List.Subset.refl _, List.Subset.refl _⟩ ?_
        (fun _ _ hfind ↦ .inl hfind) (fun _ hmem ↦ .inl hmem) (fun _ hmem ↦ .inl hmem)
      intro name certificate hfind
      rw [OrderedMap.find_assign] at hfind
      split_ifs at hfind with hname
      · cases hfind
      · exact hfind

theorem endorses_of_certificate (hadmits : (validator.authority anchors state).admits data)
    (htrusted : certificate ∈ anchors ∨ validator.IsFetched anchors state certificate)
    (hverified : validator.library.verifySignature data certificate.publicKeyInfo = .ok true) :
    (validator.authority anchors state).Endorses data := by
  rcases htrusted with hanchor | hfetched
  · exact .root hadmits ⟨certificate, hanchor, hverified⟩
  · exact .signer hadmits ⟨certificate, hfetched.made, hverified⟩ hfetched.maySign
      hfetched.endorsed

/-- The state is sound, and the packets of the requests are admitted. -/
structure IsSoundOutcome (validator : ValidatorRegex Rule Objects)
    (anchors : List Validation.IdentityCertificate) (outcome : Result Objects × List Request) :
    Prop where
  state : validator.IsSound anchors outcome.1.1
  requests : ∀ request ∈ outcome.2,
    request.callbacks.AreAdmitted validator anchors outcome.1.1

theorem IsSound.outcome (hsound : validator.IsSound anchors state) (thrown : Option Thrown) :
    IsSoundOutcome validator anchors ((state, thrown), []) :=
  ⟨hsound, by simp⟩

theorem IsSound.followKeyLocator (hsound : validator.IsSound anchors state)
    (hadmits : (validator.authority anchors state).admits data)
    (hcallbacks : callbacks.AreAdmitted validator anchors state) :
    IsSoundOutcome validator anchors (validator.followKeyLocator data nSteps callbacks state) := by
  unfold ValidatorRegex.followKeyLocator
  split_ifs
  · exact (hsound.failed callbacks data _).outcome none
  · exact (hsound.failed callbacks data _).outcome none
  · obtain ⟨hnext, hremembers, htrusted⟩ :=
      hsound.findCertificate data.signature.info.keyLocator.name
    have hextended := hremembers.isExtendedBy validator anchors
    dsimp only
    cases hfind : validator.findCertificate data.signature.info.keyLocator.name state with
    | mk found next =>
      simp only [hfind] at hnext hremembers htrusted hextended
      cases found with
      | none =>
        refine ⟨hnext, ?_⟩
        intro request hrequest
        obtain rfl := List.mem_singleton.mp hrequest
        exact ⟨hextended.admits data hadmits, hcallbacks.mono hremembers⟩
      | some certificate =>
        dsimp only
        cases hverified : validator.library.verifySignature data certificate.publicKeyInfo with
        | error error => exact hnext.outcome _
        | ok isVerified =>
          cases isVerified with
          | false => exact (hnext.failed callbacks data _).outcome none
          | true =>
            have hendorsed := endorses_of_certificate hadmits (htrusted certificate rfl) hverified
            exact (hnext.validated (hendorsed.mono hextended) (hcallbacks.mono hremembers)).outcome _

theorem IsSoundOutcome.handle {outcome : Result Objects × List Request}
    (houtcome : IsSoundOutcome validator anchors outcome) (data : Packet.Data)
    (callbacks : Callbacks) :
    IsSoundOutcome validator anchors (ValidatorRegex.handle data callbacks outcome) := by
  have hfailed : ∀ info, IsSoundOutcome validator anchors
      ((callbacks.failed data info outcome.1.1, none), outcome.2) := fun info ↦
    ⟨houtcome.state.failed callbacks data info, fun request hrequest ↦
      (houtcome.requests request hrequest).mono (remembers_failed callbacks data info outcome.1.1)⟩
  unfold ValidatorRegex.handle
  split
  · split_ifs
    · exact hfailed _
    · exact hfailed _
    · exact houtcome
  · exact houtcome

/-- Remembering a check and changing the rule objects keeps a state sound. -/
theorem IsSound.started (hsound : validator.IsSound anchors state) (data : Packet.Data)
    (objects : Objects) :
    validator.IsSound anchors { state with
      checked := state.checked ++ [(data, state.objects)], objects := objects } :=
  hsound.of_new ⟨List.subset_append_left _ _, List.Subset.refl _⟩ (fun _ _ hfind ↦ hfind)
    (fun _ _ hfind ↦ .inl hfind) (fun _ hmem ↦ .inl hmem) (fun _ hmem ↦ .inl hmem)

theorem IsSound.checkPolicy (hsound : validator.IsSound anchors state)
    (hcallbacks : callbacks.AreAdmitted validator anchors state) :
    IsSoundOutcome validator anchors (validator.checkPolicy data nSteps callbacks state) := by
  have hstarted := hsound.started data
  unfold ValidatorRegex.checkPolicy
  split_ifs
  · exact (hsound.failed callbacks data _).outcome none
  · dsimp only
    split
    · exact (hstarted _).outcome _
    · exact ((hstarted _).failed callbacks data _).outcome none
    · rename_i between hmustFail
      split
      · exact (hstarted _).outcome _
      · rename_i objects hverify
        have haccepts := validator.accepts_of_anySatisfied hmustFail hverify
        refine ((hstarted objects).followKeyLocator ⟨state.objects, by simp, haccepts⟩ ?_).handle
          data callbacks
        refine Callbacks.AreAdmitted.mono ?_ hcallbacks
        exact ⟨List.subset_append_left _ _, List.Subset.refl _⟩
      · exact ((hstarted _).failed callbacks data _).outcome none

/-! ## Runs -/

section

variable (hsound : validator.IsSound anchors state)
include hsound

theorem IsSound.expressInterest {request : Request}
    (hadmitted : request.callbacks.AreAdmitted validator anchors state) (remainingRetries : ℕ) :
    validator.IsSound anchors (ValidatorRegex.expressInterest request remainingRetries state).1 ∧
      Remembers state (ValidatorRegex.expressInterest request remainingRetries state).1 := by
  unfold ValidatorRegex.expressInterest
  split_ifs
  · exact ⟨hsound, List.Subset.refl _, List.Subset.refl _⟩
  · refine ⟨?_, List.Subset.refl _, List.Subset.refl _⟩
    refine hsound.of_new ⟨List.Subset.refl _, List.Subset.refl _⟩ (fun _ _ hfind ↦ hfind)
      (fun _ _ hfind ↦ .inl hfind) ?_ (fun _ hmem ↦ .inl hmem)
    intro pending hmem
    rcases List.mem_append.mp hmem with hold | hnew
    · exact .inl hold
    · obtain rfl := List.mem_singleton.mp hnew
      refine .inr (Callbacks.AreAdmitted.mono ?_ hadmitted)
      exact ⟨List.Subset.refl _, List.Subset.refl _⟩

theorem IsSound.expressAll {requests : List Request}
    (hadmitted : ∀ request ∈ requests, request.callbacks.AreAdmitted validator anchors state) :
    validator.IsSound anchors (ValidatorRegex.expressAll requests state).1 := by
  induction requests generalizing state with
  | nil => exact hsound
  | cons request requests ih =>
    obtain ⟨hfirst, hrest⟩ := List.forall_mem_cons.mp hadmitted
    obtain ⟨hnext, hremembers⟩ := hsound.expressInterest hfirst nRetries
    rw [ValidatorRegex.expressAll]
    split
    · rename_i next hexpress
      rw [hexpress] at hnext hremembers
      exact ih hnext fun other hother ↦ (hrest other hother).mono hremembers
    · rename_i next thrown hexpress
      rw [hexpress] at hnext
      exact hnext

theorem IsSound.validate (hcallbacks : callbacks.AreAdmitted validator anchors state) :
    validator.IsSound anchors (validator.validate data nSteps callbacks state).1 := by
  have houtcome : IsSoundOutcome validator anchors
      (validator.checkPolicy data nSteps callbacks state) := hsound.checkPolicy hcallbacks
  unfold ValidatorRegex.validate
  split
  · rename_i next thrown nextSteps hcheck
    rw [hcheck] at houtcome
    exact houtcome.state
  · rename_i next nextSteps hcheck
    rw [hcheck] at houtcome
    split_ifs
    · exact houtcome.state
    · unfold afterCheckPolicy
      split_ifs
      · exact houtcome.state.failed callbacks data _
      · exact houtcome.state.expressAll houtcome.requests

end

theorem isSound_initial (validator : ValidatorRegex Rule Objects)
    (anchors : List Validation.IdentityCertificate) (objects : Objects) (now : ℤ) :
    validator.IsSound anchors (initial anchors objects now) where
  trustAnchors := by
    have hadded : ∀ (added : List Validation.IdentityCertificate)
        (trustAnchors : OrderedMap Name (Option Validation.IdentityCertificate) (· < ·)),
        ∀ name certificate,
          (added.foldl addTrustAnchor trustAnchors).find name = some (some certificate) →
            certificate ∈ added ∨ trustAnchors.find name = some (some certificate) := by
      intro added
      induction added with
      | nil => exact fun trustAnchors name certificate hfind ↦ .inr hfind
      | cons anchor added ih =>
        intro trustAnchors name certificate hfind
        rcases ih _ name certificate hfind with hmem | hfind
        · exact .inl (List.mem_cons_of_mem _ hmem)
        · rw [addTrustAnchor, OrderedMap.find_assign] at hfind
          split_ifs at hfind with hname
          · cases hfind
            exact .inl List.mem_cons_self
          · exact .inr hfind
    intro name certificate hfind
    rcases hadded anchors _ name certificate hfind with hmem | hfind
    · exact hmem
    · rw [OrderedMap.find_empty] at hfind
      cases hfind
  certificateCache := by
    intro name certificate removal hfind
    change (OrderedMap.empty : OrderedMap Name (Validation.IdentityCertificate × ℤ) (· < ·)).find name
      = _ at hfind
    rw [OrderedMap.find_empty] at hfind
    cases hfind
  pending := by simp [initial]
  reports := by simp [initial]

theorem IsSound.settle {result : Result Objects} (hsound : validator.IsSound anchors result.1) :
    validator.IsSound anchors (ValidatorRegex.settle result) :=
  hsound.of_new ⟨List.Subset.refl _, List.Subset.refl _⟩ (fun _ _ hfind ↦ hfind)
    (fun _ _ hfind ↦ .inl hfind) (fun _ hmem ↦ .inl hmem) (fun _ hmem ↦ .inl hmem)

theorem IsSound.step {event : Event} (hsound : validator.IsSound anchors state)
    (hstep : validator.step state event = some next) : validator.IsSound anchors next := by
  -- events that leave the record alone, and at most take something away
  have hkept : ∀ kept : State Objects, Remembers state kept →
      kept.trustAnchors = state.trustAnchors →
      (∀ name entry, kept.certificateCache.find name = some entry →
        state.certificateCache.find name = some entry) →
      kept.pending ⊆ state.pending → kept.reports = state.reports →
      validator.IsSound anchors kept := by
    intro kept hremembers htrustAnchors hcache hpending hreports
    refine hsound.of_new hremembers (fun _ _ hfind ↦ htrustAnchors ▸ hfind)
      (fun name entry hfind ↦ .inl (hcache name entry hfind)) (fun _ hmem ↦ .inl (hpending hmem))
      (fun _ hmem ↦ .inl (hreports ▸ hmem))
  have hself : Remembers state state := ⟨List.Subset.refl _, List.Subset.refl _⟩
  cases event with
  | validate data =>
    cases hstep
    have hstarted := hkept { state with nextValidation := state.nextValidation + 1 }
      ⟨List.Subset.refl _, List.Subset.refl _⟩ rfl (fun _ _ hfind ↦ hfind) (List.Subset.refl _) rfl
    refine (hstarted.validate ?_).settle
    trivial
  | answer position data =>
    obtain ⟨pending, hpending, rfl⟩ := Option.map_eq_some_iff.mp hstep
    have hremoved := hkept { state with pending := state.pending.eraseIdx position }
      ⟨List.Subset.refl _, List.Subset.refl _⟩ rfl (fun _ _ hfind ↦ hfind)
      (List.eraseIdx_subset) rfl
    have hadmitted := hsound.pending pending (List.mem_of_getElem? hpending)
    refine (hremoved.validate (Callbacks.AreAdmitted.mono ?_ hadmitted)).settle
    exact ⟨List.Subset.refl _, List.Subset.refl _⟩
  | timeout position =>
    obtain ⟨pending, hpending, rfl⟩ := Option.map_eq_some_iff.mp hstep
    have hremoved := hkept { state with pending := state.pending.eraseIdx position }
      ⟨List.Subset.refl _, List.Subset.refl _⟩ rfl (fun _ _ hfind ↦ hfind)
      (List.eraseIdx_subset) rfl
    have hadmitted := hsound.pending pending (List.mem_of_getElem? hpending)
    apply IsSound.settle
    unfold onTimeout
    split_ifs
    · refine (hremoved.expressInterest (Callbacks.AreAdmitted.mono ?_ hadmitted) _).1
      exact ⟨List.Subset.refl _, List.Subset.refl _⟩
    · exact hremoved.failed _ _ _
  | setClock now =>
    cases hstep
    exact hkept _ ⟨List.Subset.refl _, List.Subset.refl _⟩ rfl (fun _ _ hfind ↦ hfind)
      (List.Subset.refl _) rfl
  | elapse duration =>
    cases hstep
    exact hkept _ ⟨List.Subset.refl _, List.Subset.refl _⟩ rfl (fun _ _ hfind ↦ hfind)
      (List.Subset.refl _) rfl
  | remove index =>
    simp only [ValidatorRegex.step] at hstep
    split at hstep
    · cases hstep
    · split_ifs at hstep
      cases hstep
      refine hkept _ ⟨List.Subset.refl _, List.Subset.refl _⟩ rfl ?_ (List.Subset.refl _) rfl
      intro name entry hfind
      rw [OrderedMap.find_eraseKey] at hfind
      split_ifs at hfind
      exact hfind

/-- Whatever a validator reports as validated in a run is the first of a finite chain of packets up to
a trust anchor. -/
theorem exists_chain_of_validated (validator : ValidatorRegex Rule Objects)
    (anchors : List Validation.IdentityCertificate) {now : ℤ} {events : List Event}
    {finish : State Objects}
    (hrun : Run.run validator.step (initial anchors objects now) events = some finish)
    {report : Report} (hreport : report ∈ finish.reports) (hvalidated : report.call = .validated) :
    ∃ signers, (validator.authority anchors finish).IsChain (report.data :: signers) := by
  have hsound : validator.IsSound anchors finish :=
    Run.invariant_of_run (fun _ state ↦ validator.IsSound anchors state)
      (fun _ _ _ _ hsound hstep ↦ hsound.step hstep)
      (isSound_initial validator anchors objects now) hrun
  exact Authority.endorses_iff_exists_chain.mp (hsound.reports report hreport hvalidated)

/-- A packet whose signer's certificate is fetched and signed under the anchor. -/
theorem exists_chain_of_validated_fetched :
    ∃ finish, Run.run (permissive rsaCertificate).step (initial [rootAnchor] () 0)
        [.validate signedData, .answer 0 signerCertificate] = some finish ∧
      finish.reports = [⟨0, signedData, .validated⟩] ∧
      ∃ signers, ((permissive rsaCertificate).authority [rootAnchor] finish).IsChain
        (signedData :: signers) := by
  have hreports : (Run.run (permissive rsaCertificate).step (initial [rootAnchor] () 0)
      [.validate signedData, .answer 0 signerCertificate]).map State.reports =
        some [⟨0, signedData, .validated⟩] := by
    decide +kernel
  obtain ⟨finish, hrun, hreports⟩ := Option.map_eq_some_iff.mp hreports
  have hmem : (⟨0, signedData, .validated⟩ : Report) ∈ finish.reports := by rw [hreports]; simp
  exact ⟨finish, hrun, hreports, exists_chain_of_validated _ _ hrun hmem rfl⟩

end NdnCxx.ValidatorRegex
