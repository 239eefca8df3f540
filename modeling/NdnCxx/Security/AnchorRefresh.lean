import NdnCxx.Security.TrustAnchors

/-!
# Refreshing the anchors

The anchors are meant to be the certificates of the containers, and a container is meant to be
refreshed once it is due. `load` puts the certificates of a directory that is read once into the
static container only, and `refreshAnchors` stops at the first container that is not due although the
list is ordered by the last refresh and not by the time of the next one.
-/

namespace NdnCxx

namespace ConfigSection

variable {certificates : List Certificate}

theorem mem_foldl_assign {found : OrderedMap Name PublicKey (· < ·)} {name : Name} :
    (∃ key, (name, key) ∈ certificates.foldl (fun found certificate ↦
        found.assign certificate.keyName certificate.publicKey) found) ↔
      (∃ key, (name, key) ∈ found) ∨ ∃ certificate ∈ certificates, certificate.keyName = name := by
  induction certificates generalizing found with
  | nil => simp
  | cons certificate rest ih =>
    rw [List.foldl_cons, ih]
    have hassigned : (∃ key, (name, key) ∈
        found.assign certificate.keyName certificate.publicKey) ↔
          (∃ key, (name, key) ∈ found) ∨ certificate.keyName = name := by
      by_cases hname : certificate.keyName = name
      · subst hname
        simp [OrderedMap.mem_assign]
      · simp [OrderedMap.mem_assign, hname, Ne.symm hname]
    rw [hassigned]
    simp only [List.exists_mem_cons_iff, or_assoc]

/-- The names in the map are those of the certificates. -/
theorem mem_byKeyName {name : Name} :
    (∃ key, (name, key) ∈ byKeyName certificates) ↔
      ∃ certificate ∈ certificates, certificate.keyName = name := by
  rw [byKeyName, mem_foldl_assign]
  simp

end ConfigSection

namespace TrustAnchors

open DynamicTrustAnchorContainer

/-- The anchors have the names of the certificates in the containers. -/
def NamesAgree (trustAnchors : TrustAnchors) : Prop :=
  ∀ name, (∃ key, (name, key) ∈ trustAnchors.anchors) ↔
    ∃ certificate ∈ trustAnchors.certificates, certificate.keyName = name

/-- A container after a refresh at some moment, if it is due then -/
def refreshed (files : Files) (now : ℤ) (container : DynamicTrustAnchorContainer) :
    DynamicTrustAnchorContainer :=
  if container.isDue now then { (container.refresh files).1 with lastRefresh := now } else container

/-- No container that is due stands behind one that is not. -/
def DueFirst (now : ℤ) (containers : List DynamicTrustAnchorContainer) : Prop :=
  containers.Pairwise fun first second ↦ second.isDue now = true → first.isDue now = true

variable {files : Files} {now : ℤ} {containers : List DynamicTrustAnchorContainer}

theorem map_refreshed_eq_self (hnone : containers.any (isDue now) = false) :
    containers.map (refreshed files now) = containers := by
  calc
    _ = containers.map id := by
      apply List.map_congr_left
      intro container hcontainer
      exact if_neg (List.any_eq_false.mp hnone container hcontainer)
    _ = containers := List.map_id _

/-- Containers that come in the order of their next refresh are refreshed in this order. -/
theorem dueFirst_of_pairwise_nextRefresh
    (hsorted : containers.Pairwise fun first second ↦
      first.lastRefresh + first.refreshPeriod ≤ second.lastRefresh + second.refreshPeriod) :
    DueFirst now containers := by
  refine hsorted.imp fun {first second} hle hdue ↦ ?_
  simp only [isDue, decide_eq_true_eq] at hdue ⊢
  omega

theorem isDue_refresh (files : Files) (container : DynamicTrustAnchorContainer) :
    (container.refresh files).1.isDue now = container.isDue now := by
  unfold refresh
  split_ifs <;> rfl

theorem refreshLoop_eq (hfirst : DueFirst now containers)
    (hreturns : (refreshLoop files now containers).2.2 = none) :
    refreshLoop files now containers =
      (containers.map (refreshed files now), containers.any (isDue now), none) := by
  induction containers with
  | nil => rfl
  | cons container rest ih =>
    obtain ⟨hhead, htail⟩ := List.pairwise_cons.mp hfirst
    rw [refreshLoop] at hreturns ⊢
    by_cases hdue : container.isDue now = true
    · rw [if_pos hdue] at hreturns ⊢
      cases hthrown : (container.refresh files).2 with
      | some error =>
        have hrefresh : container.refresh files = ((container.refresh files).1, some error) :=
          Prod.ext rfl hthrown
        rw [hrefresh] at hreturns
        simp at hreturns
      | none =>
        have hrefresh : container.refresh files = ((container.refresh files).1, none) :=
          Prod.ext rfl hthrown
        rw [hrefresh] at hreturns ⊢
        simp [ih htail hreturns, refreshed, hdue]
    · have hnone : (container :: rest).any (isDue now) = false := by
        rw [List.any_eq_false]
        intro other hother hlater
        rcases List.mem_cons.mp hother with rfl | hother
        · exact hdue hlater
        · exact hdue (hhead other hother hlater)
      rw [if_neg hdue, map_refreshed_eq_self hnone, hnone]

/-- The container whose refresh throws stays due. -/
theorem any_isDue_refreshLoop (hthrows : (refreshLoop files now containers).2.2 ≠ none) :
    (refreshLoop files now containers).1.any (isDue now) = true := by
  induction containers with
  | nil => exact absurd rfl hthrows
  | cons container rest ih =>
    rw [refreshLoop] at hthrows ⊢
    by_cases hdue : container.isDue now = true
    · rw [if_pos hdue] at hthrows ⊢
      have hstays := (isDue_refresh files container).trans hdue
      cases hrefresh : container.refresh files with
      | mk current thrown =>
        rw [hrefresh] at hthrows hstays
        cases thrown with
        | some error => simpa using .inl hstays
        | none => simpa using .inr (by simpa using ih hthrows)
    · rw [if_neg hdue] at hthrows
      exact absurd rfl hthrows

variable {trustAnchors : TrustAnchors}

theorem namesAgree_byKeyName
    (hanchors : trustAnchors.anchors = ConfigSection.byKeyName trustAnchors.certificates) :
    trustAnchors.NamesAgree := by
  intro name
  rw [hanchors]
  exact ConfigSection.mem_byKeyName

/-- The order of the containers does not matter to their certificates. -/
theorem NamesAgree.perm (hagree : trustAnchors.NamesAgree)
    (hperm : containers.Perm trustAnchors.dynamicContainers) :
    ({ trustAnchors with dynamicContainers := containers } : TrustAnchors).NamesAgree := by
  intro name
  refine (hagree name).trans ?_
  simp only [certificates, List.mem_append, List.mem_flatMap, hperm.mem_iff]

/-- The anchors are those of the containers, or else a container is due. -/
def Agreeing (now : ℤ) (trustAnchors : TrustAnchors) : Prop :=
  trustAnchors.NamesAgree ∨ trustAnchors.dynamicContainers.any (isDue now) = true

/-- If no container that is due stands behind one that is not, then a call that returns refreshes
every container that is due, and leaves the anchors of the containers. -/
theorem refreshAnchors_of_returns (hfirst : DueFirst now trustAnchors.dynamicContainers)
    (hagree : trustAnchors.Agreeing now)
    (hreturns : (refreshAnchors files now trustAnchors).2 = none) :
    (refreshAnchors files now trustAnchors).1.NamesAgree ∧
      (refreshAnchors files now trustAnchors).1.dynamicContainers.Perm
        (trustAnchors.dynamicContainers.map (refreshed files now)) := by
  have hloopReturns : (refreshLoop files now trustAnchors.dynamicContainers).2.2 = none := by
    unfold refreshAnchors at hreturns
    split at hreturns
    · simp at hreturns
    · rename_i hloop
      simp [hloop]
    · rename_i hloop
      simp [hloop]
  have hloop := refreshLoop_eq hfirst hloopReturns
  unfold refreshAnchors
  rw [hloop]
  cases hany : trustAnchors.dynamicContainers.any (isDue now) with
  | false =>
    rw [map_refreshed_eq_self hany]
    exact ⟨hagree.resolve_right (by simp [hany]), List.Perm.refl _⟩
  | true =>
    have hsorted := List.perm_insertionSort
      (fun first second ↦ first.lastRefresh ≤ second.lastRefresh)
      (trustAnchors.dynamicContainers.map (refreshed files now))
    let current : TrustAnchors :=
      { trustAnchors with
        dynamicContainers := trustAnchors.dynamicContainers.map (refreshed files now) }
    have hrebuilt : NamesAgree
        { current with anchors := ConfigSection.byKeyName current.certificates } :=
      namesAgree_byKeyName rfl
    exact ⟨hrebuilt.perm hsorted, hsorted⟩

theorem agreeing_refreshAnchors (hfirst : DueFirst now trustAnchors.dynamicContainers)
    (hagree : trustAnchors.Agreeing now) :
    (refreshAnchors files now trustAnchors).1.Agreeing now := by
  cases hthrown : (refreshAnchors files now trustAnchors).2 with
  | none => exact .inl (refreshAnchors_of_returns hfirst hagree hthrown).1
  | some error =>
    unfold refreshAnchors at hthrown ⊢
    split at hthrown
    · rename_i containers refreshed thrown hloop
      refine .inr ?_
      have hthrows : (refreshLoop files now trustAnchors.dynamicContainers).2.2 ≠ none := by
        simp [hloop]
      have hdue := any_isDue_refreshLoop hthrows
      rw [hloop] at hdue
      simpa [hloop] using hdue
    · simp at hthrown
    · simp at hthrown

theorem Agreeing.mono {later : ℤ} (hagree : trustAnchors.Agreeing now) (hlater : now ≤ later) :
    trustAnchors.Agreeing later := by
  refine hagree.imp_right fun hdue ↦ ?_
  obtain ⟨container, hmem, hcontainer⟩ := List.any_eq_true.mp hdue
  refine List.any_eq_true.mpr ⟨container, hmem, ?_⟩
  simp only [isDue, decide_eq_true_eq] at hcontainer ⊢
  omega

end TrustAnchors

namespace Validator

open TrustAnchors

/-! ## Loading -/

def AnchorSection.anchor : AnchorSection → List Certificate
  | certificate idCert => [idCert]
  | directory _ _ | refreshed _ _ | any => []

/-- The certificates of a section for a directory that is read once -/
def AnchorSection.inDirectory : AnchorSection → List Certificate
  | directory certificates _ => certificates
  | certificate _ | refreshed _ _ | any => []

/-- What a section of a configuration says about anchors -/
def anchorSections (loading : Loading) (sections : List (String × ConfigSection)) :
    List AnchorSection :=
  sections.filterMap fun named ↦
    if iequals named.1 "rule" then none else (createAnchor loading named.2).toOption

/-- Every certificate in a directory that is read once has the name of an anchor from a file or from
base64 text. -/
def CoversDirectories (loading : Loading) : Prop :=
  ∀ anchorSection ∈ anchorSections loading loading.configSection.properties,
    ∀ certificate ∈ anchorSection.inDirectory,
      ∃ other ∈ anchorSections loading loading.configSection.properties,
        ∃ idCert ∈ other.anchor, idCert.keyName = certificate.keyName

/-- The names of the anchors and the certificates of the containers, after the sections. -/
structure Gathers (sections : List AnchorSection) (before after : TrustAnchors) : Prop where
  anchors : ∀ name, (∃ key, (name, key) ∈ after.anchors) ↔ (∃ key, (name, key) ∈ before.anchors) ∨
    ∃ anchorSection ∈ sections, ∃ idCert ∈ anchorSection.anchor, idCert.keyName = name
  certificates : ∀ certificate, certificate ∈ after.certificates ↔
    certificate ∈ before.certificates ∨ ∃ anchorSection ∈ sections,
      certificate ∈ anchorSection.anchor ∨ certificate ∈ anchorSection.inDirectory

theorem Gathers.refl (trustAnchors : TrustAnchors) : Gathers [] trustAnchors trustAnchors :=
  ⟨by simp, by simp⟩

theorem Gathers.append {first second : List AnchorSection} {before middle after : TrustAnchors}
    (hfirst : Gathers first before middle) (hsecond : Gathers second middle after) :
    Gathers (first ++ second) before after := by
  constructor
  · intro name
    rw [hsecond.anchors, hfirst.anchors]
    simp only [List.mem_append, or_and_right, exists_or, or_assoc]
  · intro certificate
    rw [hsecond.certificates, hfirst.certificates]
    simp only [List.mem_append, or_and_right, exists_or, or_assoc]

theorem gathers_addStatic (trustAnchors : TrustAnchors) (idCert : Certificate) :
    Gathers [.certificate idCert] trustAnchors (trustAnchors.addStatic idCert) := by
  constructor
  · intro name
    by_cases hname : idCert.keyName = name
    · subst hname
      simp [addStatic, AnchorSection.anchor, OrderedMap.mem_assign]
    · simp [addStatic, AnchorSection.anchor, OrderedMap.mem_assign, hname, Ne.symm hname]
  · intro certificate
    simp only [TrustAnchors.certificates, addStatic, AnchorSection.anchor,
      AnchorSection.inDirectory, List.mem_append, List.mem_singleton, List.not_mem_nil, or_false,
      exists_eq_left]
    tauto

theorem gathers_addDirectory (trustAnchors : TrustAnchors) (found : List Certificate)
    (thrown : Option Error) :
    Gathers [.directory found thrown] trustAnchors (trustAnchors.addDirectory found) := by
  constructor
  · intro name
    simp [addDirectory, AnchorSection.anchor]
  · intro certificate
    simp only [TrustAnchors.certificates, addDirectory, AnchorSection.anchor,
      AnchorSection.inDirectory, List.mem_append, List.mem_singleton, List.not_mem_nil, false_or,
      exists_eq_left]
    tauto

theorem gathers_addDynamic (trustAnchors : TrustAnchors) (path : String) (refresh now : ℤ) :
    Gathers [.refreshed path refresh] trustAnchors (trustAnchors.addDynamic path refresh now) := by
  constructor
  · intro name
    simp [addDynamic, AnchorSection.anchor]
  · intro certificate
    simp [TrustAnchors.certificates, addDynamic, AnchorSection.anchor, AnchorSection.inDirectory]

theorem gathers_any (trustAnchors : TrustAnchors) : Gathers [.any] trustAnchors trustAnchors :=
  ⟨by simp [AnchorSection.anchor], by simp [AnchorSection.anchor, AnchorSection.inDirectory]⟩

variable {loading : Loading} {validator : Validator}

/-- One section that is processed without an exception. -/
theorem gathers_onConfigSection {index : ℕ} {next : Validator} {named : String × ConfigSection}
    (hok : validator.onConfigSection loading index named = (next, none)) :
    Gathers (anchorSections loading [named]) validator.trustAnchors next.trustAnchors := by
  unfold onConfigSection at hok
  split_ifs at hok with hrule hanchor
  · have hsame : next.trustAnchors = validator.trustAnchors := by
      unfold onConfigRule at hok
      split at hok
      · simp at hok
      · obtain rfl := (Prod.mk.inj hok).1
        rfl
      · obtain rfl := (Prod.mk.inj hok).1
        rfl
    have hnone : anchorSections loading [named] = [] := by simp [anchorSections, hrule]
    rw [hsame, hnone]
    exact .refl _
  · unfold onConfigTrustAnchor at hok
    cases hsection : createAnchor loading named.2 with
    | error error => simp [hsection] at hok
    | ok anchorSection =>
      have hone : anchorSections loading [named] = [anchorSection] := by
        simp [anchorSections, hrule, hsection, Except.toOption]
      rw [hone]
      cases anchorSection with
      | certificate idCert =>
        simp only [hsection, Prod.mk.injEq, and_true] at hok
        subst hok
        exact gathers_addStatic _ _
      | directory certificates thrown =>
        simp only [hsection, Prod.mk.injEq] at hok
        obtain ⟨rfl, -⟩ := hok
        exact gathers_addDirectory _ _ _
      | refreshed path refresh =>
        simp only [hsection, Prod.mk.injEq, and_true] at hok
        subst hok
        exact gathers_addDynamic _ _ _ _
      | any =>
        simp only [hsection, Prod.mk.injEq, and_true] at hok
        subst hok
        exact gathers_any _
  · simp at hok

theorem gathers_loadLoop {index : ℕ} {next : Validator} {sections : List (String × ConfigSection)}
    (hok : loadLoop loading index validator sections = (next, none)) :
    Gathers (anchorSections loading sections) validator.trustAnchors next.trustAnchors := by
  induction sections generalizing index validator with
  | nil =>
    obtain rfl := (Prod.mk.inj hok).1
    exact .refl _
  | cons named rest ih =>
    rw [loadLoop] at hok
    split at hok
    · simp at hok
    · rename_i middle hsection
      have hboth := (gathers_onConfigSection hsection).append (ih hok)
      have hsplit : anchorSections loading (named :: rest) =
          anchorSections loading [named] ++ anchorSections loading rest := by
        rw [anchorSections, ← List.singleton_append, List.filterMap_append]
        rfl
      rwa [hsplit]

/-- After a load without an exception the anchors are those of the containers exactly if every
certificate in a directory that is read once is an anchor in another way. -/
theorem namesAgree_load_iff {next : Validator} (hok : validator.load loading = (next, none)) :
    next.trustAnchors.NamesAgree ↔ CoversDirectories loading := by
  have hgathers : Gathers (anchorSections loading loading.configSection.properties)
      TrustAnchors.empty next.trustAnchors := by
    unfold load at hok
    split_ifs at hok
    · simp at hok
    · exact gathers_loadLoop hok
  have hanchors (name : Name) : (∃ key, (name, key) ∈ next.trustAnchors.anchors) ↔
      ∃ anchorSection ∈ anchorSections loading loading.configSection.properties,
        ∃ idCert ∈ anchorSection.anchor, idCert.keyName = name := by
    rw [hgathers.anchors]
    simp [TrustAnchors.empty]
  have hcertificates (certificate : Certificate) : certificate ∈ next.trustAnchors.certificates ↔
      ∃ anchorSection ∈ anchorSections loading loading.configSection.properties,
        certificate ∈ anchorSection.anchor ∨ certificate ∈ anchorSection.inDirectory := by
    rw [hgathers.certificates]
    simp [TrustAnchors.empty, TrustAnchors.certificates]
  constructor
  · intro hagree anchorSection hsection certificate hcertificate
    rw [← hanchors, hagree]
    exact ⟨certificate, (hcertificates certificate).mpr
      ⟨anchorSection, hsection, .inr hcertificate⟩, rfl⟩
  · intro hcovers name
    rw [hanchors]
    constructor
    · rintro ⟨anchorSection, hsection, idCert, hidCert, rfl⟩
      exact ⟨idCert, (hcertificates idCert).mpr ⟨anchorSection, hsection, .inl hidCert⟩, rfl⟩
    · rintro ⟨certificate, hmem, rfl⟩
      obtain ⟨anchorSection, hsection, hanchor | hdirectory⟩ := (hcertificates certificate).mp hmem
      · exact ⟨anchorSection, hsection, certificate, hanchor, rfl⟩
      · exact hcovers anchorSection hsection certificate hdirectory

/-! ## Runs -/

/-- A validator and the time on its clock -/
structure Timed where
  validator : Validator
  now : ℤ

/-- Time goes on, or a packet is checked with the files as they are then. -/
inductive Event
  | advance (nanoseconds : ℕ)
  | check (files : Files) (checked : Check)

variable {crypto : Crypto}

def step (crypto : Crypto) (timed : Timed) : Event → Option Timed
  | .advance nanoseconds => some { timed with now := timed.now + nanoseconds }
  | .check files checked =>
      some { timed with validator := (timed.validator.check crypto files timed.now checked).2 }

/-- Where the anchors are refreshed, no container that is due stands behind one that is not. -/
def ReachesDue (crypto : Crypto) (timed : Timed) : Event → Prop
  | .advance _ => True
  | .check _ checked => refreshes crypto timed.validator.config checked = true →
      DueFirst timed.now timed.validator.trustAnchors.dynamicContainers

theorem trustAnchors_check (files : Files) (now : ℤ) (validator : Validator) (checked : Check) :
    (validator.check crypto files now checked).2.trustAnchors =
      if refreshes crypto validator.config checked then
        (validator.trustAnchors.refreshAnchors files now).1
      else validator.trustAnchors := by
  cases checked <;> rfl

theorem agreeing_step {timed next : Timed} {event : Event}
    (hagree : timed.validator.trustAnchors.Agreeing timed.now)
    (hreaches : ReachesDue crypto timed event) (hstep : step crypto timed event = some next) :
    next.validator.trustAnchors.Agreeing next.now := by
  cases event with
  | advance nanoseconds =>
    obtain rfl := Option.some.inj hstep
    exact hagree.mono (by simp)
  | check files checked =>
    obtain rfl := Option.some.inj hstep
    change (timed.validator.check crypto files timed.now checked).2.trustAnchors.Agreeing timed.now
    rw [trustAnchors_check]
    split_ifs with hrefreshes
    · exact agreeing_refreshAnchors (hreaches hrefreshes) hagree
    · exact hagree

/-- If the directories that are read once hold known anchors only, and no container that is due ever
stands behind one that is not when the anchors are refreshed, then the names of the anchors are those
of the certificates in the containers after `load` and after every refresh that returns, and every
such refresh refreshes all containers that are due. -/
theorem anchors_follow_of_run {start : Validator} {now : ℤ} {events : List Event} {timed : Timed}
    (hload : validator.load loading = (start, none)) (hcovers : CoversDirectories loading)
    (hguarded : Run.Guarded (step crypto) (ReachesDue crypto) ⟨start, now⟩ events)
    (hrun : Run.run (step crypto) ⟨start, now⟩ events = some timed) :
    start.trustAnchors.NamesAgree ∧
      ∀ files checked, refreshes crypto timed.validator.config checked = true →
        DueFirst timed.now timed.validator.trustAnchors.dynamicContainers →
        (timed.validator.trustAnchors.refreshAnchors files timed.now).2 = none →
        (timed.validator.check crypto files timed.now checked).2.trustAnchors.NamesAgree ∧
        (timed.validator.check crypto files timed.now checked).2.trustAnchors.dynamicContainers.Perm
          (timed.validator.trustAnchors.dynamicContainers.map (refreshed files timed.now)) := by
  have hstart := (namesAgree_load_iff hload).mpr hcovers
  have hagree : timed.validator.trustAnchors.Agreeing timed.now :=
    Run.invariant_of_guarded (fun _ timed ↦ timed.validator.trustAnchors.Agreeing timed.now)
      (fun _ _ _ _ hagree hreaches hstep ↦ agreeing_step hagree hreaches hstep)
      (.inl hstart) hguarded hrun
  refine ⟨hstart, fun files checked hrefreshes hfirst hreturns ↦ ?_⟩
  rw [trustAnchors_check, if_pos hrefreshes]
  exact refreshAnchors_of_returns hfirst hagree hreturns

/-! ## Departures -/

def property (name data : String) : String × ConfigSection := (name, .mk data [])

/-- A rule for Data that leaves every RSA signature with a name for a key locator to the anchors -/
def anySigner : String × ConfigSection :=
  ("rule", .mk "" [property "id" "any signer", property "for" "data",
    ("checker", .mk "" [property "type" "customized", property "sig-type" "rsa-sha256",
      ("key-locator", .mk "" [property "type" "name", property "name" "/",
        property "relation" "is-prefix-of"])])])

def trustAnchor (properties : List (String × ConfigSection)) : String × ConfigSection :=
  ("trust-anchor", .mk "" properties)

def rootCertificate : Certificate := ⟨[.generic [75], .generic [1]], [7], by simp⟩

def rootFiles : Files where
  absolute file _ := file
  load _ := some rootCertificate
  decode _ := none
  directory path := ⟨[path], none⟩

/-- A configuration without regular expressions, loaded at time 0 -/
def loadingOf (sections : List (String × ConfigSection)) : Loading where
  configSection := .mk "" sections
  filename := "validation.conf"
  engine := ⟨fun _ _ ↦ false, fun _ _ ↦ ⟨fun _ ↦ false, fun _ ↦ .ok []⟩⟩
  files := rootFiles
  clock _ := 0
  inIoService := false

def newValidator : Validator := init 10 0 1 0

def onceRead : Loading :=
  loadingOf [anySigner, trustAnchor [property "type" "dir", property "dir" "/anchors"]]

/-- Two directories, the second of which is to be read twice as often -/
def twiceRead : Loading :=
  loadingOf
    [anySigner,
      trustAnchor [property "type" "dir", property "dir" "/slow", property "refresh" "10s"],
      trustAnchor [property "type" "dir", property "dir" "/fast", property "refresh" "5s"]]

def noCrypto : Crypto := ⟨fun _ _ _ ↦ false, fun _ _ ↦ false⟩

def rootSigned : Data where
  name := [.generic [65]]
  signatureInfo := ⟨Tlv.signatureSha256WithRsa, some ⟨.name [.generic [75]], []⟩, []⟩
  wire := []

def checkRoot : Event := .check rootFiles (.data rootSigned 0)

/-- Both directories are read once the clock goes on, and again when twenty seconds have passed. -/
theorem anchors_follow_of_twiceRead :
    ∃ start timed, newValidator.load twiceRead = (start, none) ∧ start.trustAnchors.NamesAgree ∧
      Run.run (step noCrypto) ⟨start, 0⟩ [.advance 1, checkRoot, .advance 20000000000] =
        some timed ∧
      (timed.validator.check noCrypto rootFiles timed.now
        (.data rootSigned 0)).2.trustAnchors.NamesAgree ∧
      (timed.validator.check noCrypto rootFiles timed.now
        (.data rootSigned 0)).2.trustAnchors.dynamicContainers.Perm
          (timed.validator.trustAnchors.dynamicContainers.map (refreshed rootFiles timed.now)) ∧
      timed.validator.trustAnchors.anchors.entries = [([.generic [75]], [7])] := by
  have hload : newValidator.load twiceRead = ((newValidator.load twiceRead).1, none) :=
    Prod.ext rfl (by decide)
  have hcovers : CoversDirectories twiceRead := by
    rw [← namesAgree_load_iff hload]
    exact namesAgree_byKeyName rfl
  have hguarded : Run.Guarded (step noCrypto) (ReachesDue noCrypto)
      ⟨(newValidator.load twiceRead).1, 0⟩ [.advance 1, checkRoot, .advance 20000000000] := by
    refine ⟨trivial, fun next hnext ↦ ⟨fun _ ↦ ?_, fun _ _ ↦ ⟨trivial, fun _ _ ↦ trivial⟩⟩⟩
    obtain rfl := Option.some.inj hnext
    exact dueFirst_of_pairwise_nextRefresh (by decide)
  obtain ⟨hagree, hlater⟩ := anchors_follow_of_run hload hcovers hguarded rfl
  obtain ⟨hnames, hcontainers⟩ := hlater rootFiles (.data rootSigned 0) (by decide)
    (by unfold DueFirst; decide) (by decide)
  exact ⟨_, _, hload, hagree, rfl, hnames, hcontainers, by decide⟩

/-- The certificate of a directory that is read once is no anchor; and the container that is to be
refreshed more often is still due after a refresh, because the one before it is not. -/
theorem anchors_not_follow :
    (∃ start, newValidator.load onceRead = (start, none) ∧
      rootCertificate ∈ start.trustAnchors.certificates ∧ ¬ start.trustAnchors.NamesAgree) ∧
    ∃ start timed, newValidator.load twiceRead = (start, none) ∧
      Run.run (step noCrypto) ⟨start, 0⟩
        [.advance 1, checkRoot, .advance 5000000001, checkRoot] = some timed ∧
      refreshes noCrypto timed.validator.config (.data rootSigned 0) = true ∧
      timed.validator.trustAnchors.dynamicContainers.any (·.isDue timed.now) = true := by
  have honce : newValidator.load onceRead = ((newValidator.load onceRead).1, none) :=
    Prod.ext rfl (by decide)
  have htwice : newValidator.load twiceRead = ((newValidator.load twiceRead).1, none) :=
    Prod.ext rfl (by decide)
  refine ⟨⟨_, honce, by decide, fun hagree ↦ ?_⟩, _, _, htwice, rfl, by decide, by decide⟩
  obtain ⟨key, hkey⟩ := (hagree [.generic [75]]).mpr ⟨rootCertificate, by decide, by decide⟩
  have hnone : (newValidator.load onceRead).1.trustAnchors.anchors.entries = [] := by decide
  change _ ∈ (newValidator.load onceRead).1.trustAnchors.anchors.entries at hkey
  rw [hnone] at hkey
  exact List.not_mem_nil hkey

end Validator

end NdnCxx
