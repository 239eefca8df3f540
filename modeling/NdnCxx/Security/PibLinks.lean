import NdnCxx.Security.PibMemory

/-!
# Links between the tables of the in-memory public information base

The cross-references of the six tables are one invariant: a default names an item that exists and
belongs to its owner, every key has its identity and every certificate its key. The loops of the
cascading removals are described by what they remove: the certificates of the public keys that satisfy
a condition, together with the default entries of these keys.

Every operation keeps the links, except that a certificate may be made the default of a foreign key.
-/

namespace NdnCxx

namespace PibMemory

open Pib

theorem getPrefix_getKeyName (identity : Name) (keyId : Component) :
    (getKeyName identity keyId).getPrefix (-1) = identity :=
  Name.getPrefix_append_singleton identity keyId

theorem get_getKeyName (identity : Name) (keyId : Component) :
    (getKeyName identity keyId).get (-1) = some keyId :=
  Name.get_append_singleton identity keyId

variable {identity : Name} {keyId : Component} {pib : PibMemory} {certificate : IdentityCertificate}
    {other : Name}

/-- A key name determines its identity and its key identifier. -/
theorem getKeyName_inj {otherId : Component} :
    getKeyName identity keyId = getKeyName other otherId ↔ identity = other ∧ keyId = otherId := by
  simp [getKeyName]

/-- A name with a last component is the name of a key. -/
theorem getKeyName_of_get {keyName : Name} (hlast : keyName.get (-1) = some keyId) :
    getKeyName (keyName.getPrefix (-1)) keyId = keyName := by
  rcases List.eq_nil_or_concat keyName with rfl | ⟨identity, last, rfl⟩
  · cases hlast
  · rw [List.concat_eq_append] at hlast ⊢
    rw [Name.get_append_singleton] at hlast
    rw [Name.getPrefix_append_singleton, getKeyName, Option.some.inj hlast]

/-! ## The invariant -/

/-- The cross-references of the tables -/
structure Linked (pib : PibMemory) : Prop where
  default_identity : pib.hasDefaultIdentity = true → pib.hasIdentity pib.defaultIdentity = true
  identity_of_key : ∀ {keyName bits}, pib.keys.find keyName = some bits →
    ∃ identity keyId, keyName = getKeyName identity keyId ∧ pib.hasIdentity identity = true
  default_key : ∀ {identity keyName}, pib.defaultKey.find identity = some keyName →
    ∃ keyId, keyName = getKeyName identity keyId ∧ pib.hasKey identity keyId = true
  name_of_certificate : ∀ {certName certificate}, pib.certs.find certName = some certificate →
    certificate.name = certName
  key_of_certificate : ∀ {certName certificate}, pib.certs.find certName = some certificate →
    (pib.keys.find certificate.publicKeyName).isSome = true
  default_certificate : ∀ {keyName certName}, pib.defaultCert.find keyName = some certName →
    ∃ certificate, pib.certs.find certName = some certificate ∧ certificate.publicKeyName = keyName

theorem linked_initial : initial.Linked where
  default_identity h := by cases h
  identity_of_key h := by cases h
  default_key h := by cases h
  name_of_certificate h := by cases h
  key_of_certificate h := by cases h
  default_certificate h := by cases h

/-- What a removal leaves behind: no certificate of a public key that satisfies `removed`, and no
default certificate of such a key. -/
structure Removed (removed : Name → Prop) (pib next : PibMemory) : Prop where
  identities : next.identities = pib.identities
  hasDefaultIdentity : next.hasDefaultIdentity = pib.hasDefaultIdentity
  defaultIdentity : next.defaultIdentity = pib.defaultIdentity
  certs : ∀ {certName certificate}, next.certs.find certName = some certificate ↔
    pib.certs.find certName = some certificate ∧ ¬ removed certificate.publicKeyName
  defaultCert : ∀ {keyName certName}, next.defaultCert.find keyName = some certName ↔
    pib.defaultCert.find keyName = some certName ∧ ¬ removed keyName

/-- The certificates stored under their names, and the default certificates that exist -/
structure Certified (pib : PibMemory) : Prop where
  name_of_certificate : ∀ {certName certificate}, pib.certs.find certName = some certificate →
    certificate.name = certName
  default_certificate : ∀ {keyName certName}, pib.defaultCert.find keyName = some certName →
    ∃ certificate, pib.certs.find certName = some certificate ∧ certificate.publicKeyName = keyName

theorem Linked.certified (hlinked : pib.Linked) : pib.Certified :=
  ⟨hlinked.name_of_certificate, hlinked.default_certificate⟩

variable {next : PibMemory}

theorem Removed.certified {removed : Name → Prop} (hremoved : Removed removed pib next)
    (hcertified : pib.Certified) : next.Certified where
  name_of_certificate hfind := hcertified.name_of_certificate (hremoved.certs.mp hfind).1
  default_certificate := by
    intro keyName certName hfind
    obtain ⟨hdefault, hkept⟩ := hremoved.defaultCert.mp hfind
    obtain ⟨certificate, hcertificate, hkey⟩ := hcertified.default_certificate hdefault
    exact ⟨certificate, hremoved.certs.mpr ⟨hcertificate, hkey ▸ hkept⟩, hkey⟩

theorem Removed.trans {first second : Name → Prop} {middle : PibMemory}
    (hfirst : Removed first pib middle) (hsecond : Removed second middle next) :
    Removed (fun keyName ↦ first keyName ∨ second keyName) pib next where
  identities := hsecond.identities.trans hfirst.identities
  hasDefaultIdentity := hsecond.hasDefaultIdentity.trans hfirst.hasDefaultIdentity
  defaultIdentity := hsecond.defaultIdentity.trans hfirst.defaultIdentity
  certs := by
    intro certName certificate
    rw [hsecond.certs, hfirst.certs, not_or, and_assoc]
  defaultCert := by
    intro keyName certName
    rw [hsecond.defaultCert, hfirst.defaultCert, not_or, and_assoc]

/-! ## The loop over certificates -/

/-- Removing certificates one after the other: their names parse, so no call throws. -/
theorem forEach_removeCertificate (certNames : List Name) (pib : PibMemory)
    (hnamed : ∀ certName ∈ certNames, ∃ keyName,
      certificateNameToPublicKeyName certName = .ok keyName) :
    ∃ next, forEach removeCertificate pib certNames = (next, none) ∧
      next = { pib with certs := next.certs, defaultCert := next.defaultCert } ∧
      (∀ certName, next.certs.find certName =
        if certName ∈ certNames then none else pib.certs.find certName) ∧
      ∀ keyName stored, next.defaultCert.find keyName = some stored ↔
        pib.defaultCert.find keyName = some stored ∧
          ∀ certName ∈ certNames, certificateNameToPublicKeyName certName ≠ .ok keyName := by
  induction certNames generalizing pib with
  | nil => exact ⟨pib, rfl, rfl, by simp, by simp⟩
  | cons certName certNames ih =>
    obtain ⟨removedKey, hremovedKey⟩ := hnamed certName List.mem_cons_self
    let middle : PibMemory :=
      { pib with
        certs := pib.certs.eraseKey certName, defaultCert := pib.defaultCert.eraseKey removedKey }
    have hcall : pib.removeCertificate certName = (middle, none) := by
      simp only [removeCertificate, hremovedKey, middle]
    obtain ⟨next, hrest, hframe, hcerts, hdefaults⟩ := ih middle
      fun other hother ↦ hnamed other (List.mem_cons_of_mem certName hother)
    refine ⟨next, ?_, hframe, fun other ↦ ?_, fun keyName stored ↦ ?_⟩
    · simp only [forEach, hcall, hrest]
    · rw [hcerts, show middle.certs = pib.certs.eraseKey certName from rfl,
        OrderedMap.find_eraseKey]
      by_cases hsame : other = certName <;> simp [hsame]
    · rw [hdefaults, show middle.defaultCert = pib.defaultCert.eraseKey removedKey from rfl,
        OrderedMap.find_eraseKey, List.forall_mem_cons, hremovedKey]
      by_cases hsame : keyName = removedKey
      · simp [hsame]
      · simp [hsame, Ne.symm hsame]

variable {certName : Name} {publicKey : Bytes}

theorem mem_getCertificatesOfKey :
    certName ∈ (pib.getCertificatesOfKey identity keyId).entries.map Prod.fst ↔
      ∃ certificate, pib.certs.find certName = some certificate ∧
        certificate.publicKeyName.equals (getKeyName identity keyId) = true := by
  rw [OrderedMap.mem_map_fst, getCertificatesOfKey, OrderedMap.mem_ofKeys, List.mem_filterMap]
  constructor
  · rintro ⟨⟨stored, certificate⟩, hmem, hselected⟩
    split_ifs at hselected with hequals
    obtain rfl : stored = certName := Option.some.inj hselected
    exact ⟨certificate, OrderedMap.find_eq_some_iff.mpr hmem, hequals⟩
  · rintro ⟨certificate, hfind, hequals⟩
    exact ⟨(certName, certificate), OrderedMap.find_eq_some_iff.mp hfind, if_pos hequals⟩

/-- `removeKey` removes the key, the default key of its identity, and the certificates of every key that
`==` takes for it. -/
theorem Certified.removeKey (hcertified : pib.Certified) (identity : Name) (keyId : Component) :
    ∃ next, pib.removeKey identity keyId = (next, none) ∧
      next.keys = pib.keys.eraseKey (getKeyName identity keyId) ∧
      next.defaultKey = pib.defaultKey.eraseKey identity ∧
      Removed (fun keyName ↦ keyName.equals (getKeyName identity keyId) = true) pib next := by
  have hparse : ∀ {certName certificate}, pib.certs.find certName = some certificate →
      certificateNameToPublicKeyName certName = .ok certificate.publicKeyName := by
    intro certName certificate hfind
    rw [← hcertified.name_of_certificate hfind, certificate.named]
  let erased : PibMemory :=
    { pib with
      keys := pib.keys.eraseKey (getKeyName identity keyId)
      defaultKey := pib.defaultKey.eraseKey identity }
  obtain ⟨next, hloop, hframe, hcerts, hdefaults⟩ := forEach_removeCertificate
    ((erased.getCertificatesOfKey identity keyId).entries.map Prod.fst) erased
    fun certName hmem ↦ by
      obtain ⟨certificate, hfind, -⟩ := mem_getCertificatesOfKey.mp hmem
      exact ⟨_, hparse hfind⟩
  refine ⟨next, hloop, by rw [hframe], by rw [hframe], by rw [hframe], by rw [hframe],
    by rw [hframe], ?_, ?_⟩
  · intro certName certificate
    rw [hcerts]
    split_ifs with hselected
    · obtain ⟨stored, hfind, hequals⟩ := mem_getCertificatesOfKey.mp hselected
      refine iff_of_false (by simp) fun hboth ↦ hboth.2 ?_
      rwa [Option.some.inj (hboth.1.symm.trans hfind)]
    · refine ⟨fun hfind ↦ ⟨hfind, fun hequals ↦ hselected ?_⟩, And.left⟩
      exact mem_getCertificatesOfKey.mpr ⟨certificate, hfind, hequals⟩
  · intro keyName certName
    rw [hdefaults]
    refine and_congr_right fun hdefault ↦ ?_
    obtain ⟨certificate, hfind, hkey⟩ := hcertified.default_certificate hdefault
    constructor
    · intro hkept hequals
      refine hkept certName (mem_getCertificatesOfKey.mpr ⟨certificate, hfind, ?_⟩) ?_
      · rwa [hkey]
      · rw [hparse hfind, hkey]
    · intro hkept other hmem hother
      obtain ⟨stored, hstored, hequals⟩ := mem_getCertificatesOfKey.mp hmem
      rw [hparse hstored, Except.ok.injEq] at hother
      exact hkept (hother ▸ hequals)

/-! ## The loop over keys -/

theorem mem_getKeysOfIdentity :
    keyId ∈ (pib.getKeysOfIdentity identity).entries.map Prod.fst ↔
      ∃ keyName bits, pib.keys.find keyName = some bits ∧
        identity.equals (keyName.getPrefix (-1)) = true ∧ keyName.get (-1) = some keyId := by
  rw [OrderedMap.mem_map_fst, getKeysOfIdentity, OrderedMap.mem_ofKeys, List.mem_filterMap]
  constructor
  · rintro ⟨keyName, hmem, hselected⟩
    obtain ⟨⟨stored, bits⟩, hentry, rfl⟩ := List.mem_map.mp hmem
    split_ifs at hselected with hequals
    exact ⟨stored, bits, OrderedMap.find_eq_some_iff.mpr hentry, hequals, hselected⟩
  · rintro ⟨keyName, bits, hfind, hequals, hlast⟩
    refine ⟨keyName, List.mem_map_of_mem (OrderedMap.find_eq_some_iff.mp hfind), ?_⟩
    rw [if_pos hequals, hlast]

/-- Every key of an identity is listed under its identifier. -/
theorem mem_getKeysOfIdentity_of_hasKey (hkey : pib.hasKey identity keyId = true) :
    keyId ∈ (pib.getKeysOfIdentity identity).entries.map Prod.fst := by
  obtain ⟨bits, hbits⟩ := Option.isSome_iff_exists.mp hkey
  refine mem_getKeysOfIdentity.mpr ⟨_, bits, hbits, ?_, get_getKeyName identity keyId⟩
  rw [getPrefix_getKeyName, Name.equals_iff]

/-- Removing keys of an identity one after the other -/
theorem forEach_removeKey {keyIds : List Component} (identity : Name) (hcertified : pib.Certified) :
    ∃ next, forEach (fun pib keyId ↦ pib.removeKey identity keyId) pib keyIds = (next, none) ∧
      (∀ keyName bits, next.keys.find keyName = some bits ↔
        pib.keys.find keyName = some bits ∧
          ∀ keyId ∈ keyIds, keyName ≠ getKeyName identity keyId) ∧
      (∀ other keyName, next.defaultKey.find other = some keyName ↔
        pib.defaultKey.find other = some keyName ∧ ¬ (other = identity ∧ keyIds ≠ [])) ∧
      Removed (fun keyName ↦ ∃ keyId ∈ keyIds, keyName.equals (getKeyName identity keyId) = true)
        pib next := by
  induction keyIds generalizing pib with
  | nil => exact ⟨pib, rfl, by simp, by simp, rfl, rfl, rfl, by simp, by simp⟩
  | cons keyId keyIds ih =>
    obtain ⟨middle, hcall, hkeys, hdefaults, hremoved⟩ := hcertified.removeKey identity keyId
    obtain ⟨next, hrest, hkeysRest, hdefaultsRest, hremovedRest⟩ :=
      ih (hremoved.certified hcertified)
    refine ⟨next, ?_, fun keyName bits ↦ ?_, fun other keyName ↦ ?_, ?_⟩
    · simp only [forEach, hcall, hrest]
    · rw [hkeysRest, hkeys, OrderedMap.find_eraseKey, List.forall_mem_cons]
      by_cases hsame : keyName = getKeyName identity keyId <;> simp [hsame]
    · rw [hdefaultsRest, hdefaults, OrderedMap.find_eraseKey]
      by_cases hsame : other = identity <;> simp [hsame]
    · have hboth := hremoved.trans hremovedRest
      refine ⟨hboth.identities, hboth.hasDefaultIdentity, hboth.defaultIdentity, ?_, ?_⟩
      · simp only [hboth.certs, List.exists_mem_cons_iff, implies_true]
      · simp only [hboth.defaultCert, List.exists_mem_cons_iff, implies_true]

/-- The state after the identity itself is gone -/
def withoutIdentity (pib : PibMemory) (identity : Name) : PibMemory :=
  { pib with
    identities := pib.identities.eraseKey identity
    hasDefaultIdentity :=
      if identity.equals pib.defaultIdentity then false else pib.hasDefaultIdentity }

/-- `removeIdentity` removes the identity and its keys, and the certificates of every key that `==`
takes for one of them. -/
theorem Certified.removeIdentity (hcertified : pib.Certified) (identity : Name) :
    ∃ next, pib.removeIdentity identity = (next, none) ∧
      (∀ keyName bits, next.keys.find keyName = some bits ↔
        pib.keys.find keyName = some bits ∧
          ∀ keyId ∈ (pib.getKeysOfIdentity identity).entries.map Prod.fst,
            keyName ≠ getKeyName identity keyId) ∧
      (∀ other keyName, next.defaultKey.find other = some keyName ↔
        pib.defaultKey.find other = some keyName ∧
          ¬ (other = identity ∧ (pib.getKeysOfIdentity identity).entries.map Prod.fst ≠ [])) ∧
      Removed (fun keyName ↦ ∃ keyId ∈ (pib.getKeysOfIdentity identity).entries.map Prod.fst,
        keyName.equals (getKeyName identity keyId) = true) (pib.withoutIdentity identity) next :=
  have hwithout : (pib.withoutIdentity identity).Certified :=
    ⟨hcertified.name_of_certificate, hcertified.default_certificate⟩
  forEach_removeKey identity hwithout

/-! ## Each operation keeps the invariant -/

theorem hasIdentity_addIdentity :
    (pib.addIdentity identity).hasIdentity other = true ↔
      other = identity ∨ pib.hasIdentity other = true := by
  have hidentities : (pib.addIdentity identity).identities = pib.identities.insert identity () := by
    unfold addIdentity
    split_ifs <;> rfl
  rw [hasIdentity, hidentities, OrderedMap.find_insert, hasIdentity]
  by_cases hsame : other = identity
  · subst hsame
    cases hfind : pib.identities.find other <;> simp
  · simp [hsame]

/-- `addIdentity` touches no key and no certificate. -/
theorem addIdentity_eq (pib : PibMemory) (identity : Name) :
    pib.addIdentity identity = { pib with
      identities := pib.identities.insert identity ()
      hasDefaultIdentity := true
      defaultIdentity := if pib.hasDefaultIdentity then pib.defaultIdentity else identity } := by
  unfold addIdentity
  cases pib.hasDefaultIdentity <;> simp

theorem Linked.addIdentity (hlinked : pib.Linked) (identity : Name) :
    (pib.addIdentity identity).Linked where
  default_identity := by
    intro _
    rw [hasIdentity_addIdentity, addIdentity_eq]
    cases hdefault : pib.hasDefaultIdentity with
    | false => exact .inl rfl
    | true => exact .inr (hlinked.default_identity hdefault)
  identity_of_key := by
    intro keyName bits hfind
    rw [addIdentity_eq] at hfind
    obtain ⟨owner, keyId, hname, howner⟩ := hlinked.identity_of_key hfind
    exact ⟨owner, keyId, hname, hasIdentity_addIdentity.mpr (.inr howner)⟩
  default_key := by
    rw [addIdentity_eq]
    exact hlinked.default_key
  name_of_certificate := by
    rw [addIdentity_eq]
    exact hlinked.name_of_certificate
  key_of_certificate := by
    rw [addIdentity_eq]
    exact hlinked.key_of_certificate
  default_certificate := by
    rw [addIdentity_eq]
    exact hlinked.default_certificate

/-- Any existing identity may become the default. -/
theorem Linked.setDefaultIdentity (hlinked : pib.Linked) (identity : Name) :
    (pib.setDefaultIdentity identity).Linked :=
  let hadded := hlinked.addIdentity identity
  { default_identity := fun _ ↦ hasIdentity_addIdentity.mpr (.inl rfl)
    identity_of_key := hadded.identity_of_key
    default_key := hadded.default_key
    name_of_certificate := hadded.name_of_certificate
    key_of_certificate := hadded.key_of_certificate
    default_certificate := hadded.default_certificate }

/-- `addKey` writes the key and, where its identity has none, the default key. -/
theorem addKey_eq (pib : PibMemory) (identity : Name) (keyId : Component) (publicKey : Bytes) :
    pib.addKey identity keyId publicKey = { pib.addIdentity identity with
      keys := pib.keys.assign (getKeyName identity keyId) publicKey
      defaultKey :=
        if pib.defaultKey.find identity = none then
          pib.defaultKey.assign identity (getKeyName identity keyId)
        else pib.defaultKey } := by
  cases hdefault : pib.defaultKey.find identity <;> simp [addKey, addIdentity_eq, hdefault]

theorem hasIdentity_addKey :
    (pib.addKey identity keyId publicKey).hasIdentity other = true ↔
      other = identity ∨ pib.hasIdentity other = true := by
  rw [addKey_eq]
  exact hasIdentity_addIdentity

theorem Linked.addKey (hlinked : pib.Linked) (identity : Name) (keyId : Component)
    (publicKey : Bytes) : (pib.addKey identity keyId publicKey).Linked := by
  have hadded := hlinked.addIdentity identity
  have hkeys (keyName : Name) :
      (pib.keys.find keyName).isSome = true →
        ((pib.addKey identity keyId publicKey).keys.find keyName).isSome = true := by
    intro hsome
    rw [addKey_eq, OrderedMap.find_assign]
    split_ifs
    · rfl
    · exact hsome
  refine ⟨?_, ?_, ?_, ?_, ?_, ?_⟩
  · rw [addKey_eq]
    exact hadded.default_identity
  · intro keyName bits hfind
    rw [addKey_eq, OrderedMap.find_assign] at hfind
    split_ifs at hfind with hsame
    · exact ⟨identity, keyId, hsame, hasIdentity_addKey.mpr (.inl rfl)⟩
    · obtain ⟨owner, ownedId, hname, howner⟩ := hlinked.identity_of_key hfind
      exact ⟨owner, ownedId, hname, hasIdentity_addKey.mpr (.inr howner)⟩
  · intro other keyName hfind
    have hown : (pib.addKey identity keyId publicKey).hasKey identity keyId = true := by
      rw [hasKey, addKey_eq, OrderedMap.find_assign, if_pos rfl]
      rfl
    have hold : pib.defaultKey.find other = some keyName → ∃ ownedId,
        keyName = getKeyName other ownedId ∧
          (pib.addKey identity keyId publicKey).hasKey other ownedId = true := by
      intro hdefault
      obtain ⟨ownedId, hname, hkey⟩ := hlinked.default_key hdefault
      exact ⟨ownedId, hname, hkeys _ hkey⟩
    rw [addKey_eq] at hfind
    split_ifs at hfind with hnone
    · rw [OrderedMap.find_assign] at hfind
      split_ifs at hfind with hsame
      · obtain rfl := hsame
        exact ⟨keyId, (Option.some.inj hfind).symm, hown⟩
      · exact hold hfind
    · exact hold hfind
  · rw [addKey_eq]
    exact hadded.name_of_certificate
  · intro certName certificate hfind
    rw [addKey_eq, addIdentity_eq] at hfind
    exact hkeys _ (hlinked.key_of_certificate hfind)
  · rw [addKey_eq]
    exact hadded.default_certificate

/-- `addCertificate` adds the key, writes the certificate and, where its key has none, the default
certificate. -/
theorem addCertificate_eq_some (hnext : pib.addCertificate certificate = some next) :
    ∃ keyId, certificate.publicKeyName.get (-1) = some keyId ∧
      next = { pib.addKey (certificate.publicKeyName.getPrefix (-1)) keyId
          certificate.publicKeyInfo with
        certs := pib.certs.assign certificate.name certificate
        defaultCert :=
          if pib.defaultCert.find certificate.publicKeyName = none then
            pib.defaultCert.assign certificate.publicKeyName certificate.name
          else pib.defaultCert } := by
  obtain ⟨keyId, hlast, rfl⟩ := Option.map_eq_some_iff.mp hnext
  refine ⟨keyId, hlast, ?_⟩
  cases hdefault : pib.defaultCert.find certificate.publicKeyName <;>
    simp [addKey_eq, addIdentity_eq, hdefault]

/-- Two certificates of one name are certificates of one key. -/
theorem publicKeyName_eq_of_name_eq {first second : IdentityCertificate}
    (hname : first.name = second.name) : first.publicKeyName = second.publicKeyName := by
  have hsame := first.named
  rw [hname, second.named] at hsame
  exact (Except.ok.inj hsame).symm

section

variable (hlinked : pib.Linked)
include hlinked

theorem Linked.addCertificate (hnext : pib.addCertificate certificate = some next) :
    next.Linked := by
  obtain ⟨keyId, hlast, rfl⟩ := addCertificate_eq_some hnext
  have hadded := hlinked.addKey (certificate.publicKeyName.getPrefix (-1)) keyId
    certificate.publicKeyInfo
  have holdCerts : (pib.addKey (certificate.publicKeyName.getPrefix (-1)) keyId
      certificate.publicKeyInfo).certs = pib.certs := by
    rw [addKey_eq, addIdentity_eq]
  have hown : ((pib.addKey (certificate.publicKeyName.getPrefix (-1)) keyId
      certificate.publicKeyInfo).keys.find certificate.publicKeyName).isSome = true := by
    rw [addKey_eq, getKeyName_of_get hlast, OrderedMap.find_assign, if_pos rfl]
    rfl
  refine ⟨hadded.default_identity, hadded.identity_of_key, hadded.default_key, ?_, ?_, ?_⟩
  · intro certName stored hfind
    rw [OrderedMap.find_assign] at hfind
    split_ifs at hfind with hsame
    · rw [← Option.some.inj hfind, hsame]
    · exact hlinked.name_of_certificate hfind
  · intro certName stored hfind
    rw [OrderedMap.find_assign] at hfind
    split_ifs at hfind with hsame
    · rw [← Option.some.inj hfind]
      exact hown
    · exact hadded.key_of_certificate (by rwa [holdCerts])
  · intro keyName certName hfind
    have hold : pib.defaultCert.find keyName = some certName → ∃ stored,
        (pib.certs.assign certificate.name certificate).find certName = some stored ∧
          stored.publicKeyName = keyName := by
      intro hdefault
      obtain ⟨stored, hstored, hkey⟩ := hlinked.default_certificate hdefault
      rw [OrderedMap.find_assign]
      split_ifs with hsame
      · have hname : certificate.name = stored.name :=
          hsame.symm.trans (hlinked.name_of_certificate hstored).symm
        exact ⟨certificate, rfl, (publicKeyName_eq_of_name_eq hname).trans hkey⟩
      · exact ⟨stored, hstored, hkey⟩
    split_ifs at hfind with hnone
    · rw [OrderedMap.find_assign] at hfind
      split_ifs at hfind with hsame
      · refine ⟨certificate, ?_, hsame.symm⟩
        rw [← Option.some.inj hfind, OrderedMap.find_assign, if_pos rfl]
      · exact hold hfind
    · exact hold hfind

theorem Linked.removeKey (identity : Name) (keyId : Component) :
    (pib.removeKey identity keyId).1.Linked := by
  obtain ⟨next, hcall, hkeys, hdefaults, hremoved⟩ := hlinked.certified.removeKey identity keyId
  have hcertified := hremoved.certified hlinked.certified
  rw [hcall]
  refine ⟨?_, ?_, ?_, hcertified.name_of_certificate, ?_, hcertified.default_certificate⟩
  · rw [hremoved.hasDefaultIdentity, hasIdentity, hremoved.identities, hremoved.defaultIdentity]
    exact hlinked.default_identity
  · intro keyName bits hfind
    rw [hkeys, OrderedMap.find_eraseKey] at hfind
    split_ifs at hfind
    obtain ⟨owner, ownedId, hname, howner⟩ := hlinked.identity_of_key hfind
    exact ⟨owner, ownedId, hname, by rwa [hasIdentity, hremoved.identities]⟩
  · intro other keyName hfind
    rw [hdefaults, OrderedMap.find_eraseKey] at hfind
    split_ifs at hfind with hother
    obtain ⟨ownedId, hname, hkey⟩ := hlinked.default_key hfind
    refine ⟨ownedId, hname, ?_⟩
    rw [hasKey, hkeys, OrderedMap.find_eraseKey, if_neg fun hsame ↦ hother (getKeyName_inj.mp hsame).1]
    exact hkey
  · intro certName certificate hfind
    obtain ⟨hold, hkept⟩ := hremoved.certs.mp hfind
    rw [hkeys, OrderedMap.find_eraseKey, if_neg]
    · exact hlinked.key_of_certificate hold
    · exact fun hsame ↦ hkept (by rw [hsame, Name.equals_iff])

theorem Linked.removeIdentity (identity : Name) : (pib.removeIdentity identity).1.Linked := by
  obtain ⟨next, hcall, hkeys, hdefaults, hremoved⟩ := hlinked.certified.removeIdentity identity
  have hcertified := hremoved.certified
    ⟨hlinked.certified.name_of_certificate, hlinked.certified.default_certificate⟩
  have hidentities (other : Name) (hother : other ≠ identity) :
      next.hasIdentity other = pib.hasIdentity other := by
    rw [hasIdentity, hremoved.identities, withoutIdentity, OrderedMap.find_eraseKey, if_neg hother,
      hasIdentity]
  rw [hcall]
  refine ⟨?_, ?_, ?_, hcertified.name_of_certificate, ?_, hcertified.default_certificate⟩
  · intro hdefault
    rw [hremoved.hasDefaultIdentity, withoutIdentity] at hdefault
    split_ifs at hdefault with hequals
    have hdistinct : pib.defaultIdentity ≠ identity := by
      intro hsame
      exact hequals (by rw [hsame, Name.equals_iff])
    rw [hremoved.defaultIdentity, withoutIdentity, hidentities _ hdistinct]
    exact hlinked.default_identity hdefault
  · intro keyName bits hfind
    obtain ⟨hold, hkept⟩ := (hkeys keyName bits).mp hfind
    obtain ⟨owner, keyId, hname, howner⟩ := hlinked.identity_of_key hold
    refine ⟨owner, keyId, hname, ?_⟩
    rw [hidentities owner, howner]
    rintro rfl
    have hkey : pib.hasKey owner keyId = true := by rw [hasKey, ← hname, hold]; rfl
    exact hkept keyId (mem_getKeysOfIdentity_of_hasKey hkey) hname
  · intro other keyName hfind
    obtain ⟨hold, hkept⟩ := (hdefaults other keyName).mp hfind
    obtain ⟨keyId, hname, hkey⟩ := hlinked.default_key hold
    have hother : other ≠ identity := by
      rintro rfl
      exact hkept ⟨rfl, List.ne_nil_of_mem (mem_getKeysOfIdentity_of_hasKey hkey)⟩
    obtain ⟨bits, hbits⟩ := Option.isSome_iff_exists.mp hkey
    refine ⟨keyId, hname, Option.isSome_iff_exists.mpr ⟨bits, (hkeys _ _).mpr ⟨hbits, ?_⟩⟩⟩
    exact fun removedId _ hsame ↦ hother (getKeyName_inj.mp hsame).1
  · intro certName certificate hfind
    obtain ⟨hold, hkept⟩ := hremoved.certs.mp hfind
    obtain ⟨bits, hbits⟩ := Option.isSome_iff_exists.mp (hlinked.key_of_certificate hold)
    refine Option.isSome_iff_exists.mpr ⟨bits, (hkeys _ _).mpr ⟨hbits, ?_⟩⟩
    intro keyId hkeyId hsame
    exact hkept ⟨keyId, hkeyId, by rw [hsame, Name.equals_iff]⟩

theorem Linked.removeCertificate (certName : Name) : (pib.removeCertificate certName).1.Linked := by
  have hcerts : ∀ {other certificate},
      (pib.certs.eraseKey certName).find other = some certificate →
        pib.certs.find other = some certificate := by
    intro other certificate hfind
    rw [OrderedMap.find_eraseKey] at hfind
    split_ifs at hfind
    exact hfind
  unfold PibMemory.removeCertificate
  cases hparse : certificateNameToPublicKeyName certName with
  | error error =>
    refine ⟨hlinked.default_identity, hlinked.identity_of_key, hlinked.default_key,
      fun hfind ↦ hlinked.name_of_certificate (hcerts hfind),
      fun hfind ↦ hlinked.key_of_certificate (hcerts hfind), ?_⟩
    intro keyName stored hfind
    obtain ⟨certificate, hcertificate, hkey⟩ := hlinked.default_certificate hfind
    refine ⟨certificate, ?_, hkey⟩
    -- a stored certificate has a name that parses
    have hother : stored ≠ certName := by
      rintro rfl
      have hnamed := certificate.named
      rw [hlinked.name_of_certificate hcertificate, hparse] at hnamed
      cases hnamed
    rwa [OrderedMap.find_eraseKey, if_neg hother]
  | ok removedKey =>
    refine ⟨hlinked.default_identity, hlinked.identity_of_key, hlinked.default_key,
      fun hfind ↦ hlinked.name_of_certificate (hcerts hfind),
      fun hfind ↦ hlinked.key_of_certificate (hcerts hfind), ?_⟩
    intro keyName stored hfind
    rw [OrderedMap.find_eraseKey] at hfind
    split_ifs at hfind with hkept
    obtain ⟨certificate, hcertificate, hkey⟩ := hlinked.default_certificate hfind
    refine ⟨certificate, ?_, hkey⟩
    -- the certificate removed is one of another key
    have hother : stored ≠ certName := by
      rintro rfl
      have hnamed := certificate.named
      rw [hlinked.name_of_certificate hcertificate, hparse, hkey, Except.ok.injEq] at hnamed
      exact hkept hnamed.symm
    rwa [OrderedMap.find_eraseKey, if_neg hother]

theorem Linked.setDefaultKeyOfIdentity (identity : Name) (keyId : Component) :
    (pib.setDefaultKeyOfIdentity identity keyId).1.Linked := by
  unfold PibMemory.setDefaultKeyOfIdentity
  split_ifs with hkey
  · exact hlinked
  · refine ⟨hlinked.default_identity, hlinked.identity_of_key, ?_, hlinked.name_of_certificate,
      hlinked.key_of_certificate, hlinked.default_certificate⟩
    intro other keyName hfind
    rw [OrderedMap.find_assign] at hfind
    split_ifs at hfind with hsame
    · have hpresent : pib.hasKey identity keyId = true := by simpa using hkey
      subst hsame
      exact ⟨keyId, (Option.some.inj hfind).symm, hpresent⟩
    · exact hlinked.default_key hfind

/-- A certificate of the key itself may become its default. -/
theorem Linked.setDefaultCertificateOfKey (hown : ∀ certificate ∈ pib.certs.find certName,
      certificate.publicKeyName = getKeyName identity keyId) :
    (pib.setDefaultCertificateOfKey identity keyId certName).1.Linked := by
  unfold PibMemory.setDefaultCertificateOfKey
  split_ifs with hpresent
  · exact hlinked
  · refine ⟨hlinked.default_identity, hlinked.identity_of_key, hlinked.default_key,
      hlinked.name_of_certificate, hlinked.key_of_certificate, ?_⟩
    intro keyName stored hfind
    rw [OrderedMap.find_assign] at hfind
    split_ifs at hfind with hsame
    · obtain rfl := Option.some.inj hfind
      have hsome : pib.hasCertificate certName = true := by simpa using hpresent
      obtain ⟨certificate, hcertificate⟩ := Option.isSome_iff_exists.mp hsome
      exact ⟨certificate, hcertificate, (hown certificate hcertificate).trans hsame.symm⟩
    · exact hlinked.default_certificate hfind

end

/-- A certificate becomes the default of its own key only. -/
def CertificateOfKey (pib : PibMemory) (event : Event) : Prop :=
  match event with
  | .setDefaultCertificateOfKey identity keyId certName =>
      ∀ certificate ∈ pib.certs.find certName,
        certificate.publicKeyName = getKeyName identity keyId
  | _ => True

theorem Linked.step {event : Event} (hlinked : pib.Linked) (hofKey : pib.CertificateOfKey event)
    (hnext : pib.step event = some next) : next.Linked := by
  obtain ⟨outcome, houtcome, rfl⟩ := Option.map_eq_some_iff.mp hnext
  cases event with
  | addIdentity identity =>
    obtain rfl := Option.some.inj houtcome
    exact hlinked.addIdentity identity
  | removeIdentity identity =>
    obtain rfl := Option.some.inj houtcome
    exact hlinked.removeIdentity identity
  | setDefaultIdentity identity =>
    obtain rfl := Option.some.inj houtcome
    exact hlinked.setDefaultIdentity identity
  | addKey identity keyId publicKey =>
    obtain rfl := Option.some.inj houtcome
    exact hlinked.addKey identity keyId publicKey
  | removeKey identity keyId =>
    obtain rfl := Option.some.inj houtcome
    exact hlinked.removeKey identity keyId
  | setDefaultKeyOfIdentity identity keyId =>
    obtain rfl := Option.some.inj houtcome
    exact hlinked.setDefaultKeyOfIdentity identity keyId
  | addCertificate certificate =>
    obtain ⟨added, hadded, rfl⟩ := Option.map_eq_some_iff.mp houtcome
    exact hlinked.addCertificate hadded
  | removeCertificate certName =>
    obtain rfl := Option.some.inj houtcome
    exact hlinked.removeCertificate certName
  | setDefaultCertificateOfKey identity keyId certName =>
    obtain rfl := Option.some.inj houtcome
    exact hlinked.setDefaultCertificateOfKey hofKey

/-! ## Existing items -/

theorem addIdentity_eq_self (hpresent : pib.hasIdentity identity = true)
    (hdefault : pib.hasDefaultIdentity = true) : pib.addIdentity identity = pib := by
  have hinsert : pib.identities.insert identity () = pib.identities :=
    OrderedMap.insert_eq_self () hpresent
  simp only [addIdentity, hinsert]
  rw [if_neg (by simp [hdefault])]

theorem addKey_eq_self (hlinked : pib.Linked)
    (hpresent : pib.keys.find (getKeyName identity keyId) = some publicKey)
    (hdefault : pib.hasDefaultIdentity = true)
    (hdefaultKey : (pib.defaultKey.find identity).isSome = true) :
    pib.addKey identity keyId publicKey = pib := by
  obtain ⟨owner, ownedId, hname, howner⟩ := hlinked.identity_of_key hpresent
  rw [← (getKeyName_inj.mp hname).1] at howner
  obtain ⟨keyName, hkeyName⟩ := Option.isSome_iff_exists.mp hdefaultKey
  have hassign : pib.keys.assign (getKeyName identity keyId) publicKey = pib.keys :=
    OrderedMap.assign_eq_self hpresent
  simp [addKey, addIdentity_eq_self howner hdefault, hassign, hkeyName]

theorem addCertificate_eq_self (hlinked : pib.Linked)
    (hpresent : pib.certs.find certificate.name = some certificate)
    (hbits : pib.keys.find certificate.publicKeyName = some certificate.publicKeyInfo)
    (hdefault : pib.hasDefaultIdentity = true)
    (hdefaultKey : (pib.defaultKey.find (certificate.publicKeyName.getPrefix (-1))).isSome = true)
    (hdefaultCert : (pib.defaultCert.find certificate.publicKeyName).isSome = true)
    (hnext : pib.addCertificate certificate = some next) : next = pib := by
  obtain ⟨keyId, hlast, rfl⟩ := addCertificate_eq_some hnext
  obtain ⟨certName, hcertName⟩ := Option.isSome_iff_exists.mp hdefaultCert
  rw [addKey_eq_self hlinked (by rwa [getKeyName_of_get hlast]) hdefault hdefaultKey,
    OrderedMap.assign_eq_self hpresent]
  simp [hcertName]

end PibMemory

end NdnCxx
