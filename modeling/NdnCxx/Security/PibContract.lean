import NdnCxx.Security.PibLinks

/-!
# The contract of the in-memory public information base

A PIB promises that the defaults it returns exist and belong to what was asked for, that adding an
existing item or removing an absent one changes nothing, and that removing a key or a certificate
leaves the defaults that refer to something else.

The implementation breaks the contract in a few situations, and `Allowed` excludes them: an item that
exists is written a second time, a removal erases a default that refers to something else, a comparison
takes names for equal that differ in a component type, and a certificate becomes the default of a
foreign key.
-/

namespace NdnCxx

namespace PibMemory

open Pib

/-! ## The contract -/

/-- What the getters say about the tables -/
structure Consistent (pib : PibMemory) : Prop where
  default_identity : ∀ {identity}, pib.getDefaultIdentity = .ok identity →
    pib.hasIdentity identity = true
  default_key : ∀ {identity keyId}, pib.getDefaultKeyOfIdentity identity = .ok keyId →
    pib.hasKey identity keyId = true
  default_certificate : ∀ {identity keyId certificate},
    pib.getDefaultCertificateOfKey identity keyId = .ok certificate →
      pib.getCertificate certificate.name = .ok certificate ∧
        certificate.publicKeyName = getKeyName identity keyId
  identity_of_key : ∀ {keyName}, (pib.keys.find keyName).isSome = true →
    ∃ identity keyId, keyName = getKeyName identity keyId ∧ pib.hasIdentity identity = true
  key_of_certificate : ∀ {certName certificate}, pib.getCertificate certName = .ok certificate →
    certificate.name = certName ∧ (pib.keys.find certificate.publicKeyName).isSome = true

/-- What an operation must leave as it was -/
def Frames (pib : PibMemory) (event : Event) (next : PibMemory) : Prop :=
  match event with
  | .addIdentity identity => pib.hasIdentity identity = true → next = pib
  | .removeIdentity identity => pib.hasIdentity identity = false → next = pib
  | .addKey identity keyId _ => pib.hasKey identity keyId = true → next = pib
  | .removeKey identity keyId =>
      (pib.hasKey identity keyId = false → next = pib) ∧
        next.getDefaultIdentity = pib.getDefaultIdentity ∧
        (∀ other, (∀ otherId, pib.getDefaultKeyOfIdentity other = .ok otherId →
            getKeyName other otherId ≠ getKeyName identity keyId) →
          next.getDefaultKeyOfIdentity other = pib.getDefaultKeyOfIdentity other) ∧
        ∀ other otherId, getKeyName other otherId ≠ getKeyName identity keyId →
          next.getDefaultCertificateOfKey other otherId =
            pib.getDefaultCertificateOfKey other otherId
  | .addCertificate certificate => pib.hasCertificate certificate.name = true → next = pib
  | .removeCertificate certName =>
      (pib.hasCertificate certName = false → next = pib) ∧
        next.getDefaultIdentity = pib.getDefaultIdentity ∧
        (∀ other, next.getDefaultKeyOfIdentity other = pib.getDefaultKeyOfIdentity other) ∧
        ∀ other otherId,
          (∀ certificate, pib.getDefaultCertificateOfKey other otherId = .ok certificate →
            certificate.name ≠ certName) →
          next.getDefaultCertificateOfKey other otherId =
            pib.getDefaultCertificateOfKey other otherId
  | .setDefaultIdentity _ | .setDefaultKeyOfIdentity _ _ | .setDefaultCertificateOfKey _ _ _ => True

/-- The calls that reach no defect -/
def Allowed (pib : PibMemory) : Event → Prop
  -- an existing item is added again only as it is, and while the defaults above it are set
  | .addIdentity identity => pib.hasIdentity identity = true → pib.hasDefaultIdentity = true
  | .addKey identity keyId publicKey =>
      ∀ bits ∈ pib.keys.find (getKeyName identity keyId), bits = publicKey ∧
        pib.hasDefaultIdentity = true ∧ (pib.defaultKey.find identity).isSome = true
  | .addCertificate certificate =>
      ∀ stored ∈ pib.certs.find certificate.name, stored = certificate ∧
        pib.keys.find certificate.publicKeyName = some certificate.publicKeyInfo ∧
        pib.hasDefaultIdentity = true ∧
        (pib.defaultKey.find (certificate.publicKeyName.getPrefix (-1))).isSome = true ∧
        (pib.defaultCert.find certificate.publicKeyName).isSome = true
  -- an absent identity equals neither the default identity nor the owner of a certificate
  | .removeIdentity identity => pib.hasIdentity identity = false →
      (pib.hasDefaultIdentity = true → identity.equals pib.defaultIdentity = false) ∧
        ∀ entry ∈ pib.certs.entries,
          identity.equals (entry.2.publicKeyName.getPrefix (-1)) = false
  -- a default that is erased refers to what is removed
  | .removeKey identity keyId =>
      (∀ keyName ∈ pib.defaultKey.find identity, keyName = getKeyName identity keyId) ∧
        ∀ entry ∈ pib.certs.entries,
          entry.2.publicKeyName.equals (getKeyName identity keyId) = true →
            entry.2.publicKeyName = getKeyName identity keyId
  | .removeCertificate certName =>
      ∀ keyName ∈ (certificateNameToPublicKeyName certName).toOption,
        ∀ default ∈ pib.defaultCert.find keyName, default = certName
  -- a default certificate is one of the key
  | .setDefaultCertificateOfKey identity keyId certName =>
      ∀ certificate ∈ pib.certs.find certName,
        certificate.publicKeyName = getKeyName identity keyId
  | .setDefaultIdentity _ | .setDefaultKeyOfIdentity _ _ => True

instance (pib : PibMemory) : (event : Event) → Decidable (pib.Allowed event)
  | .addIdentity _ => inferInstanceAs (Decidable (_ → _))
  | .addKey identity keyId _ =>
      inferInstanceAs (Decidable (∀ bits ∈ pib.keys.find (getKeyName identity keyId), _ ∧ _ ∧ _))
  | .addCertificate certificate =>
      inferInstanceAs (Decidable (∀ stored ∈ pib.certs.find certificate.name, _ ∧ _ ∧ _ ∧ _ ∧ _))
  | .removeIdentity _ =>
      inferInstanceAs (Decidable (_ → (_ → _) ∧ ∀ entry ∈ pib.certs.entries, _))
  | .removeKey identity _ =>
      inferInstanceAs (Decidable ((∀ keyName ∈ pib.defaultKey.find identity, _) ∧
        ∀ entry ∈ pib.certs.entries, _ → _))
  | .removeCertificate certName =>
      inferInstanceAs (Decidable (∀ keyName ∈ (certificateNameToPublicKeyName certName).toOption,
        ∀ default ∈ pib.defaultCert.find keyName, _))
  | .setDefaultCertificateOfKey _ _ certName =>
      inferInstanceAs (Decidable (∀ certificate ∈ pib.certs.find certName, _))
  | .setDefaultIdentity _ => isTrue trivial
  | .setDefaultKeyOfIdentity _ _ => isTrue trivial

/-! ## The links give consistency -/

variable {identity : Name} {keyId : Component} {pib : PibMemory}

theorem getDefaultKeyOfIdentity_eq_ok (hlinked : pib.Linked) :
    pib.getDefaultKeyOfIdentity identity = .ok keyId ↔
      pib.defaultKey.find identity = some (getKeyName identity keyId) := by
  unfold getDefaultKeyOfIdentity
  cases hdefault : pib.defaultKey.find identity with
  | none => simp
  | some keyName =>
    obtain ⟨defaultId, rfl, -⟩ := hlinked.default_key hdefault
    simp [get_getKeyName, getKeyName_inj]

variable {certificate : IdentityCertificate} {next : PibMemory} {certName : Name}
    {events : List Event}

theorem getDefaultCertificateOfKey_eq_ok :
    pib.getDefaultCertificateOfKey identity keyId = .ok certificate ↔
      ∃ certName, pib.defaultCert.find (getKeyName identity keyId) = some certName ∧
        pib.certs.find certName = some certificate := by
  unfold getDefaultCertificateOfKey
  cases hdefault : pib.defaultCert.find (getKeyName identity keyId) with
  | none => simp
  | some certName => cases hfind : pib.certs.find certName <;> simp [hfind]

/-- Where no default certificate is returned, the exception is always the same. -/
theorem getDefaultCertificateOfKey_congr
    (hiff : ∀ certificate, next.getDefaultCertificateOfKey identity keyId = .ok certificate ↔
      pib.getDefaultCertificateOfKey identity keyId = .ok certificate) :
    next.getDefaultCertificateOfKey identity keyId =
      pib.getDefaultCertificateOfKey identity keyId := by
  have herror (memory : PibMemory) {thrown : Thrown}
      (hthrown : memory.getDefaultCertificateOfKey identity keyId = .error thrown) :
      thrown = .pib "No default certificate" := by
    unfold getDefaultCertificateOfKey at hthrown
    split at hthrown
    · exact (Except.error.inj hthrown).symm
    · split at hthrown
      · exact (Except.error.inj hthrown).symm
      · cases hthrown
  cases hpib : pib.getDefaultCertificateOfKey identity keyId with
  | ok certificate => exact (hiff certificate).mpr hpib
  | error thrown =>
    cases hnext : next.getDefaultCertificateOfKey identity keyId with
    | ok certificate =>
      rw [(hiff certificate).mp hnext] at hpib
      cases hpib
    | error other => rw [herror pib hpib, herror next hnext]

theorem getCertificate_eq_ok :
    pib.getCertificate certName = .ok certificate ↔
      pib.certs.find certName = some certificate := by
  unfold getCertificate
  cases pib.certs.find certName <;> simp

theorem Linked.consistent (hlinked : pib.Linked) : pib.Consistent where
  default_identity := by
    intro identity hget
    unfold getDefaultIdentity at hget
    split_ifs at hget with hdefault
    rw [← Except.ok.inj hget]
    exact hlinked.default_identity hdefault
  default_key := by
    intro identity keyId hget
    obtain ⟨defaultId, hname, hkey⟩ :=
      hlinked.default_key ((getDefaultKeyOfIdentity_eq_ok hlinked).mp hget)
    rwa [(getKeyName_inj.mp hname).2]
  default_certificate := by
    intro identity keyId certificate hget
    obtain ⟨certName, hdefault, hfind⟩ := getDefaultCertificateOfKey_eq_ok.mp hget
    obtain ⟨stored, hstored, hkey⟩ := hlinked.default_certificate hdefault
    obtain rfl : stored = certificate := Option.some.inj (hstored.symm.trans hfind)
    exact ⟨getCertificate_eq_ok.mpr (by rwa [hlinked.name_of_certificate hfind]), hkey⟩
  identity_of_key := by
    intro keyName hsome
    obtain ⟨bits, hbits⟩ := Option.isSome_iff_exists.mp hsome
    exact hlinked.identity_of_key hbits
  key_of_certificate := by
    intro certName certificate hget
    have hfind := getCertificate_eq_ok.mp hget
    exact ⟨hlinked.name_of_certificate hfind, hlinked.key_of_certificate hfind⟩

/-! ## Absent items -/

/-- A removal that meets no certificate changes no certificate. -/
theorem Removed.eq_self {removed : Name → Prop} (hremoved : Removed removed pib next)
    (hcertified : pib.Certified)
    (hnone : ∀ {certName certificate}, pib.certs.find certName = some certificate →
      ¬ removed certificate.publicKeyName) (hkeys : next.keys = pib.keys)
    (hdefaultKey : next.defaultKey = pib.defaultKey) : next = pib := by
  have hcerts : next.certs = pib.certs := by
    refine OrderedMap.eq_of_find_eq fun certName ↦ Option.ext fun certificate ↦ ?_
    exact hremoved.certs.trans (and_iff_left_of_imp hnone)
  have hdefaultCert : next.defaultCert = pib.defaultCert := by
    refine OrderedMap.eq_of_find_eq fun keyName ↦ Option.ext fun certName ↦ ?_
    refine hremoved.defaultCert.trans (and_iff_left_of_imp fun hdefault ↦ ?_)
    obtain ⟨certificate, hfind, hkey⟩ := hcertified.default_certificate hdefault
    exact hkey ▸ hnone hfind
  have hidentities := hremoved.identities
  have hhasDefault := hremoved.hasDefaultIdentity
  have hdefault := hremoved.defaultIdentity
  cases next
  cases pib
  simp only [mk.injEq]
  exact ⟨hidentities, hhasDefault, hdefault, hkeys, hdefaultKey, hcerts, hdefaultCert⟩

theorem Linked.removeIdentity_absent (hlinked : pib.Linked)
    (habsent : pib.hasIdentity identity = false)
    (hdefault : pib.hasDefaultIdentity = true → identity.equals pib.defaultIdentity = false)
    (hcerts : ∀ entry ∈ pib.certs.entries,
      identity.equals (entry.2.publicKeyName.getPrefix (-1)) = false) :
    (pib.removeIdentity identity).1 = pib := by
  obtain ⟨next, hcall, hkeys, hdefaults, hremoved⟩ := hlinked.certified.removeIdentity identity
  have hnone : pib.identities.find identity = none := by simpa [hasIdentity] using habsent
  have hself : pib.withoutIdentity identity = pib := by
    have hflag : (if identity.equals pib.defaultIdentity = true then false
        else pib.hasDefaultIdentity) = pib.hasDefaultIdentity := by
      split_ifs with hequals
      · cases hhas : pib.hasDefaultIdentity with
        | false => rfl
        | true => rw [hdefault hhas] at hequals; cases hequals
      · rfl
    rw [withoutIdentity, hflag, OrderedMap.eraseKey_eq_self hnone]
  rw [hself] at hremoved
  rw [hcall]
  refine hremoved.eq_self hlinked.certified ?_ ?_ ?_
  · rintro certName certificate hfind ⟨keyId, -, hequals⟩
    have hother := hcerts _ (OrderedMap.find_eq_some_iff.mp hfind)
    have hvalues : identity.map Component.value =
        (certificate.publicKeyName.getPrefix (-1)).map Component.value := by
      have hpublic := Name.equals_iff.mp hequals
      rcases List.eq_nil_or_concat certificate.publicKeyName with hempty | ⟨owner, last, hsplit⟩
      · rw [hempty] at hpublic
        simp [getKeyName] at hpublic
      · rw [hsplit, List.concat_eq_append] at hpublic ⊢
        rw [Name.getPrefix_append_singleton]
        simp only [getKeyName, List.map_append, List.map_cons, List.map_nil] at hpublic
        exact (List.append_inj' hpublic rfl).1.symm
    rw [Name.equals_iff.mpr hvalues] at hother
    cases hother
  · refine OrderedMap.eq_of_find_eq fun keyName ↦ Option.ext fun bits ↦ ?_
    refine (hkeys keyName bits).trans (and_iff_left_of_imp fun hold keyId _ hsame ↦ ?_)
    obtain ⟨owner, ownedId, hname, howner⟩ := hlinked.identity_of_key hold
    rw [← (getKeyName_inj.mp (hsame.symm.trans hname)).1, habsent] at howner
    cases howner
  · refine OrderedMap.eq_of_find_eq fun other ↦ Option.ext fun keyName ↦ ?_
    refine (hdefaults other keyName).trans (and_iff_left_of_imp fun hold hsame ↦ ?_)
    obtain ⟨keyId, hname, hkey⟩ := hlinked.default_key hold
    obtain ⟨bits, hbits⟩ := Option.isSome_iff_exists.mp hkey
    obtain ⟨owner, ownedId, howned, howner⟩ := hlinked.identity_of_key hbits
    rw [← (getKeyName_inj.mp howned).1, hsame.1, habsent] at howner
    cases howner

theorem Linked.removeKey_absent (hlinked : pib.Linked)
    (hallowed : pib.Allowed (.removeKey identity keyId))
    (habsent : pib.hasKey identity keyId = false) : (pib.removeKey identity keyId).1 = pib := by
  obtain ⟨hdefault, hcerts⟩ := hallowed
  obtain ⟨next, hcall, hkeys, hdefaults, hremoved⟩ := hlinked.certified.removeKey identity keyId
  have hnone : pib.keys.find (getKeyName identity keyId) = none := by simpa [hasKey] using habsent
  rw [hcall]
  refine hremoved.eq_self hlinked.certified ?_ ?_ ?_
  · intro certName certificate hfind hequals
    have hkey := hlinked.key_of_certificate hfind
    rw [hcerts _ (OrderedMap.find_eq_some_iff.mp hfind) hequals, hnone] at hkey
    cases hkey
  · rw [hkeys, OrderedMap.eraseKey_eq_self hnone]
  · rw [hdefaults, OrderedMap.eraseKey_eq_self]
    cases hfind : pib.defaultKey.find identity with
    | none => rfl
    | some keyName =>
      obtain ⟨defaultId, hname, hkey⟩ := hlinked.default_key hfind
      rw [hdefault keyName hfind] at hname
      rw [hasKey, ← hname, hnone] at hkey
      cases hkey

theorem Linked.removeCertificate_absent (hlinked : pib.Linked)
    (hallowed : pib.Allowed (.removeCertificate certName))
    (habsent : pib.hasCertificate certName = false) : (pib.removeCertificate certName).1 = pib := by
  have hnone : pib.certs.find certName = none := by simpa [hasCertificate] using habsent
  unfold PibMemory.removeCertificate
  rw [OrderedMap.eraseKey_eq_self hnone]
  cases hparse : certificateNameToPublicKeyName certName with
  | error error => rfl
  | ok keyName =>
    have hdefault : pib.defaultCert.find keyName = none := by
      refine Option.eq_none_iff_forall_not_mem.mpr fun default hfind ↦ ?_
      obtain rfl := hallowed keyName (by rw [hparse]; rfl) default hfind
      obtain ⟨certificate, hcertificate, -⟩ := hlinked.default_certificate hfind
      rw [hnone] at hcertificate
      cases hcertificate
    dsimp only
    rw [OrderedMap.eraseKey_eq_self hdefault]

/-! ## Defaults that refer to something else -/

theorem Linked.frames_removeKey (hlinked : pib.Linked)
    (hallowed : pib.Allowed (.removeKey identity keyId)) :
    pib.Frames (.removeKey identity keyId) (pib.removeKey identity keyId).1 := by
  refine ⟨hlinked.removeKey_absent hallowed, ?_⟩
  obtain ⟨hdefault, hcerts⟩ := hallowed
  obtain ⟨next, hcall, hkeys, hdefaults, hremoved⟩ := hlinked.certified.removeKey identity keyId
  rw [hcall]
  refine ⟨?_, fun other hother ↦ ?_, fun other otherId hother ↦ ?_⟩
  · unfold getDefaultIdentity
    rw [hremoved.hasDefaultIdentity, hremoved.defaultIdentity]
  · unfold getDefaultKeyOfIdentity
    rw [hdefaults, OrderedMap.find_eraseKey]
    split_ifs with hsame
    · obtain rfl := hsame
      cases hfind : pib.defaultKey.find other with
      | none => rfl
      | some keyName =>
        obtain rfl := hdefault keyName hfind
        exact absurd rfl (hother keyId ((getDefaultKeyOfIdentity_eq_ok hlinked).mpr hfind))
    · rfl
  · have hkept {certName : Name} {certificate : IdentityCertificate}
        (hfind : pib.certs.find certName = some certificate)
        (hkey : certificate.publicKeyName = getKeyName other otherId) :
        ¬ certificate.publicKeyName.equals (getKeyName identity keyId) = true := by
      intro hequals
      exact hother (hkey.symm.trans (hcerts _ (OrderedMap.find_eq_some_iff.mp hfind) hequals))
    have hiff (certificate : IdentityCertificate) :
        next.getDefaultCertificateOfKey other otherId = .ok certificate ↔
          pib.getDefaultCertificateOfKey other otherId = .ok certificate := by
      rw [getDefaultCertificateOfKey_eq_ok, getDefaultCertificateOfKey_eq_ok]
      refine exists_congr fun certName ↦ ?_
      rw [hremoved.defaultCert, hremoved.certs]
      refine ⟨fun h ↦ ⟨h.1.1, h.2.1⟩, fun h ↦ ?_⟩
      obtain ⟨stored, hstored, hkey⟩ := hlinked.default_certificate h.1
      obtain rfl := Option.some.inj (hstored.symm.trans h.2)
      exact ⟨⟨h.1, hkey ▸ hkept h.2 hkey⟩, h.2, hkept h.2 hkey⟩
    exact getDefaultCertificateOfKey_congr hiff

theorem Linked.frames_removeCertificate (hlinked : pib.Linked)
    (hallowed : pib.Allowed (.removeCertificate certName)) :
    pib.Frames (.removeCertificate certName) (pib.removeCertificate certName).1 := by
  refine ⟨hlinked.removeCertificate_absent hallowed, ?_, fun other ↦ ?_, fun other otherId hother ↦ ?_⟩
  · unfold PibMemory.removeCertificate getDefaultIdentity
    split <;> rfl
  · unfold PibMemory.removeCertificate getDefaultKeyOfIdentity
    cases certificateNameToPublicKeyName certName <;> rfl
  · refine getDefaultCertificateOfKey_congr fun certificate ↦ ?_
    have hcerts : (pib.removeCertificate certName).1.certs = pib.certs.eraseKey certName := by
      unfold PibMemory.removeCertificate
      split <;> rfl
    -- the entry of a default certificate other than the one removed stays
    have hdefaults : ∀ {stored}, (pib.removeCertificate certName).1.defaultCert.find
        (getKeyName other otherId) = some stored ↔
          pib.defaultCert.find (getKeyName other otherId) = some stored := by
      intro stored
      unfold PibMemory.removeCertificate
      cases hparse : certificateNameToPublicKeyName certName with
      | error error => exact Iff.rfl
      | ok keyName =>
        rw [OrderedMap.find_eraseKey]
        split_ifs with hsame
        · refine iff_of_false (by simp) fun hfind ↦ ?_
          obtain ⟨found, hfound, -⟩ := hlinked.default_certificate hfind
          have hstored : stored = certName :=
            hallowed keyName (by rw [hparse]; rfl) stored (hsame ▸ hfind)
          exact hother found (getDefaultCertificateOfKey_eq_ok.mpr ⟨stored, hfind, hfound⟩)
            ((hlinked.name_of_certificate hfound).trans hstored)
        · exact Iff.rfl
    rw [getDefaultCertificateOfKey_eq_ok, getDefaultCertificateOfKey_eq_ok]
    refine exists_congr fun stored ↦ ?_
    rw [hdefaults, hcerts, OrderedMap.find_eraseKey]
    refine and_congr_right fun hfind ↦ ?_
    split_ifs with hsame
    · refine iff_of_false (by simp) fun hfound ↦ ?_
      exact hother certificate (getDefaultCertificateOfKey_eq_ok.mpr ⟨stored, hfind, hfound⟩)
        ((hlinked.name_of_certificate hfound).trans hsame)
    · exact Iff.rfl

/-! ## Runs -/

variable {event : Event}

theorem Allowed.ofKey (hallowed : pib.Allowed event) : pib.CertificateOfKey event := by
  cases event with
  | setDefaultCertificateOfKey identity keyId certName => exact hallowed
  | _ => trivial

theorem Linked.frames (hlinked : pib.Linked) (hallowed : pib.Allowed event)
    (hnext : pib.step event = some next) : pib.Frames event next := by
  obtain ⟨outcome, houtcome, rfl⟩ := Option.map_eq_some_iff.mp hnext
  cases event with
  | addIdentity identity =>
    obtain rfl := Option.some.inj houtcome
    exact fun hpresent ↦ addIdentity_eq_self hpresent (hallowed hpresent)
  | removeIdentity identity =>
    obtain rfl := Option.some.inj houtcome
    intro habsent
    obtain ⟨hdefault, hcerts⟩ := hallowed habsent
    exact hlinked.removeIdentity_absent habsent hdefault hcerts
  | addKey identity keyId publicKey =>
    obtain rfl := Option.some.inj houtcome
    intro hpresent
    obtain ⟨bits, hbits⟩ := Option.isSome_iff_exists.mp hpresent
    obtain ⟨rfl, hdefault, hdefaultKey⟩ := hallowed bits hbits
    exact addKey_eq_self hlinked hbits hdefault hdefaultKey
  | removeKey identity keyId =>
    obtain rfl := Option.some.inj houtcome
    exact hlinked.frames_removeKey hallowed
  | addCertificate certificate =>
    obtain ⟨added, hadded, rfl⟩ := Option.map_eq_some_iff.mp houtcome
    intro hpresent
    obtain ⟨stored, hstored⟩ := Option.isSome_iff_exists.mp hpresent
    obtain ⟨rfl, hbits, hdefault, hdefaultKey, hdefaultCert⟩ := hallowed stored hstored
    exact addCertificate_eq_self hlinked hstored hbits hdefault hdefaultKey hdefaultCert hadded
  | removeCertificate certName =>
    obtain rfl := Option.some.inj houtcome
    exact hlinked.frames_removeCertificate hallowed
  | setDefaultIdentity identity => trivial
  | setDefaultKeyOfIdentity identity keyId => trivial
  | setDefaultCertificateOfKey identity keyId certName => trivial

theorem linked_of_run (hguarded : Run.Guarded step Allowed initial events)
    (hrun : Run.run step initial events = some pib) : pib.Linked :=
  Run.invariant_of_guarded (fun _ state ↦ state.Linked)
    (fun _ _ _ _ hlinked hallowed hnext ↦ hlinked.step hallowed.ofKey hnext) linked_initial
    hguarded hrun

/-- In every run whose calls reach no defect, the tables are consistent, and the next such call leaves
what it must leave. -/
theorem frames_of_run (hguarded : Run.Guarded step Allowed initial events)
    (hrun : Run.run step initial events = some pib) :
    pib.Consistent ∧ ∀ event next, pib.Allowed event → pib.step event = some next →
      pib.Frames event next :=
  have hlinked := linked_of_run hguarded hrun
  ⟨hlinked.consistent, fun _ _ hallowed hnext ↦ hlinked.frames hallowed hnext⟩

/-- Two keys, one of them with a certificate: the default key is replaced and removed, and the other key
becomes the default again. -/
theorem frames_of_run_replacedDefault :
    let identity : Name := [.generic [97]]
    let certificate : IdentityCertificate :=
      { name := [.generic [97], .generic [75, 69, 89], .generic [49],
          .generic [73, 68, 45, 67, 69, 82, 84], .generic [0]]
        publicKeyName := [.generic [97], .generic [49]]
        publicKeyInfo := [1]
        wire := [6, 0]
        named := by rfl }
    ∃ pib, Run.run step initial
        [.addCertificate certificate, .addKey identity (.generic [50]) [2],
          .setDefaultKeyOfIdentity identity (.generic [50]), .removeKey identity (.generic [50]),
          .removeKey identity (.generic [51]), .setDefaultKeyOfIdentity identity (.generic [49]),
          .addCertificate certificate] = some pib ∧
      pib.getDefaultKeyOfIdentity identity = .ok (.generic [49]) ∧ pib.Consistent ∧
      ∃ next, pib.step (.removeKey identity (.generic [49])) = some next ∧
        pib.Frames (.removeKey identity (.generic [49])) next := by
  intro identity certificate
  have hguarded : Run.Guarded step Allowed initial
      [.addCertificate certificate, .addKey identity (.generic [50]) [2],
        .setDefaultKeyOfIdentity identity (.generic [50]), .removeKey identity (.generic [50]),
        .removeKey identity (.generic [51]), .setDefaultKeyOfIdentity identity (.generic [49]),
        .addCertificate certificate] := by decide +kernel
  obtain ⟨hconsistent, hframes⟩ := frames_of_run hguarded rfl
  exact ⟨_, rfl, by decide +kernel, hconsistent, _, rfl, hframes _ _ (by decide +kernel) rfl⟩

/-- Removing the second key of an identity erases its default key, which is the first. -/
theorem default_erased_by_other_removeKey :
    let identity : Name := [.generic [97]]
    ∃ pib next, Run.run step initial
        [.addKey identity (.generic [49]) [1], .addKey identity (.generic [50]) [2]] = some pib ∧
      pib.step (.removeKey identity (.generic [50])) = some next ∧
      pib.getDefaultKeyOfIdentity identity = .ok (.generic [49]) ∧
      next.hasKey identity (.generic [49]) = true ∧
      next.getDefaultKeyOfIdentity identity = .error (.pib "No default key") ∧
      ¬ pib.Frames (.removeKey identity (.generic [50])) next := by
  intro identity
  have hown : (initial.addKey identity (.generic [49]) [1] |>.addKey identity (.generic [50]) [2]
      |>.getDefaultKeyOfIdentity identity) = .ok (.generic [49]) := by decide +kernel
  refine ⟨_, _, rfl, rfl, hown, by decide +kernel, by decide +kernel, fun hframes ↦ ?_⟩
  have hkept := hframes.2.2.1 identity fun otherId hother hsame ↦ by
    obtain rfl := Except.ok.inj (hown.symm.trans hother)
    exact absurd (getKeyName_inj.mp hsame).2 (by decide)
  revert hkept
  decide +kernel

end PibMemory

end NdnCxx
