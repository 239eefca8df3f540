import NdnCxx.Security.SecPublicInfoRuns

/-!
# The default certificate of the system

The getters read names from the columns, so what they return is what the setters were given, as long as
the names consist of components that a name can be read from. The default certificate is also kept in a
member. Setting a default reads it again, and deleting does not, so the member is the stored default
certificate exactly as long as nothing was deleted that the stored one rests on.
-/

namespace NdnCxx

open MarkedTable

variable {component : Component}

namespace Name

/-- The text of a component, read as a name -/
theorem fromUri_component (hvalid : component.IsValid) :
    fromUri component.toUri = .ok [component] := by
  obtain ⟨hne, hchars⟩ := Component.toUri_spec component
  obtain ⟨char, rest, htext⟩ := List.exists_cons_of_ne_nil hne
  have hwhole : component.toUri.takeWhile (· ≠ Char.ofNat 0) = component.toUri := by
    rw [List.takeWhile_eq_self_iff]
    intro char hmem
    simpa using (hchars char hmem).2.2.2
  have hscheme : dropScheme component.toUri = component.toUri := by
    have hcolon : component.toUri.dropWhile (· ≠ ':') = [] := by
      rw [List.dropWhile_eq_nil_iff]
      intro char hmem
      simpa using (hchars char hmem).2.1
    rw [dropScheme, hcolon]
  have hauthority : dropAuthority component.toUri = some component.toUri := by
    have hslash : char ≠ '/' := (hchars char (by rw [htext]; exact List.mem_cons_self)).1
    rw [htext, dropAuthority]
    · intro rest' hcons
      exact hslash (List.cons.inj hcons).1
    · intro rest' hcons
      exact hslash (List.cons.inj hcons).1
  have hsplit : splitComponents (['/'].intercalate ([component].map Component.toUri)) =
      [component].map Component.toUri := splitComponents_intercalate
  have hread : ([component].map Component.toUri).mapM Component.fromEscapedString = .ok [component] :=
    mapM_fromEscapedString (by simpa using hvalid)
  simp only [fromUri]
  rw [hwhole, Component.trim_toUri, if_neg (by simpa using hne), hscheme, hauthority]
  simp only
  simp only [List.map_cons, List.map_nil, List.intercalate_singleton] at hsplit hread
  rw [hsplit, hread]

end Name

namespace SecPublicInfo

open Validation

/-! ## Names in the columns -/

/-- The URI of a name that can be read back -/
def IsNameUri (uri : String) : Prop :=
  ∃ name : Name, (∀ component ∈ name, component.IsValid) ∧ uri = name.toUri

/-- The text of a component that can be read back -/
def IsComponentUri (uri : String) : Prop :=
  ∃ component : Component, component.IsValid ∧ uri = String.ofList component.toUri

variable {name : Name} {event : Event} {certificate : Certificate}

theorem readName_toUri (hvalid : ∀ component ∈ name, component.IsValid) :
    readName name.toUri = .ok name := by
  rw [readName, Name.fromUri_toUri name hvalid]
  rfl

theorem readName_component (hvalid : component.IsValid) :
    readName (String.ofList component.toUri) = .ok [component] := by
  rw [readName, String.toList_ofList, Name.fromUri_component hvalid]
  rfl

variable {uri : String}

theorem IsNameUri.readName_eq_ok_iff (huri : IsNameUri uri) :
    readName uri = .ok name ↔ (∀ component ∈ name, component.IsValid) ∧ uri = name.toUri := by
  obtain ⟨written, hvalid, rfl⟩ := huri
  rw [readName_toUri hvalid]
  constructor
  · intro hsame
    obtain rfl := Except.ok.inj hsame
    exact ⟨hvalid, rfl⟩
  · rintro ⟨hname, hsame⟩
    have hread := readName_toUri hname
    rw [← hsame, readName_toUri hvalid] at hread
    exact hread

theorem IsComponentUri.readName_eq_ok_iff (huri : IsComponentUri uri) :
    readName uri = .ok name ↔ ∃ component : Component, component.IsValid ∧
      uri = String.ofList component.toUri ∧ name = [component] := by
  obtain ⟨written, hvalid, rfl⟩ := huri
  rw [readName_component hvalid]
  constructor
  · intro hsame
    exact ⟨written, hvalid, rfl, (Except.ok.inj hsame).symm⟩
  · rintro ⟨component, hcomponent, hsame, rfl⟩
    have hread := readName_component hcomponent
    rw [← hsame, readName_component hvalid] at hread
    exact hread

/-- Every column of a registry can be read back. -/
structure HasNames (registry : Registry) : Prop where
  identities : ∀ uri ∈ registry.identities, IsNameUri uri
  keys : ∀ key ∈ registry.keys, IsComponentUri key.2
  certificates : ∀ entry ∈ registry.certificates, IsNameUri entry.2

theorem hasNames_initial : HasNames initial.registry := by
  refine ⟨?_, ?_, ?_⟩
  · rintro uri ⟨row, hrow, -⟩
    exact absurd hrow (by simp [initial])
  · rintro key ⟨row, hrow, -⟩
    exact absurd hrow (by simp [initial])
  · rintro entry ⟨row, hrow, -⟩
    exact absurd hrow (by simp [initial])

def Event.names : Event → List Name
  | .setTpmLocator _ | .refreshDefaultCertificate | .getDefaultCertificateName => []
  | .addIdentity name | .addKey name _ | .setDefaultIdentity name
  | .setDefaultKeyNameForIdentity name | .setDefaultCertificateNameForKey name
  | .deleteCertificateInfo name | .deletePublicKeyInfo name | .deleteIdentityInfo name => [name]
  | .addCertificate certificate | .addCertificateAsKeyDefault certificate
  | .addCertificateAsIdentityDefault certificate | .addCertificateAsSystemDefault certificate =>
      [certificate.name]

/-- The names consist of components that can be read back. -/
def Event.IsReadable (event : Event) : Prop :=
  ∀ name ∈ event.names, ∀ component ∈ name, component.IsValid

instance (event : Event) : Decidable event.IsReadable :=
  inferInstanceAs (Decidable (∀ name ∈ event.names, ∀ component ∈ name, component.IsValid))

theorem isReadable_of_names (hnames : event.names = [name])
    (hvalid : ∀ component ∈ name, component.IsValid) : event.IsReadable := by
  intro other hmem
  rw [hnames] at hmem
  exact List.mem_singleton.mp hmem ▸ hvalid

theorem mem_of_mem_getPrefix {count : ℤ} (hmem : component ∈ name.getPrefix count) :
    component ∈ name := by
  unfold Name.getPrefix at hmem
  split_ifs at hmem
  · exact List.mem_of_mem_take hmem
  · exact hmem
  · exact List.mem_of_mem_take hmem

/-- The name of the key is a part of that of the certificate. -/
theorem Certificate.mem_name_of_mem_publicKeyName (hmem : component ∈ certificate.publicKeyName) :
    component ∈ certificate.name := by
  have hread := certificate.certificateNameToPublicKeyName_eq_ok
  rw [KeyChain.certificateNameToPublicKeyName_eq_ok_iff] at hread
  exact MarkedList.mem_of_mem_payload hread hmem

variable {keyName : Name}

namespace HasNames

variable {registry : Registry}

section

variable (hnames : HasNames registry)
include hnames

theorem of_subset {other : Registry} (hidentities : other.identities ⊆ registry.identities)
    (hkeys : other.keys ⊆ registry.keys)
    (hcertificates : other.certificates ⊆ registry.certificates) : HasNames other :=
  ⟨fun uri huri ↦ hnames.identities uri (hidentities huri),
    fun key hkey ↦ hnames.keys key (hkeys hkey),
    fun entry hentry ↦ hnames.certificates entry (hcertificates hentry)⟩

theorem addIdentity (huri : IsNameUri uri) : HasNames (registry.addIdentity uri) := by
  refine ⟨?_, hnames.keys, hnames.certificates⟩
  rintro other (rfl | hother)
  · exact huri
  · exact hnames.identities other hother

theorem addKey {columns : String × String} (hvalid : ∀ component ∈ keyName, component.IsValid)
    (hcolumns : keyColumns keyName = some columns) : HasNames (registry.addKey columns) := by
  obtain ⟨keyId, hlast, rfl⟩ := Option.map_eq_some_iff.mp hcolumns
  have hmem : keyId ∈ keyName := by
    unfold Name.get at hlast
    split_ifs at hlast
    · exact List.mem_of_getElem? hlast
    · exact List.mem_of_getElem? hlast
  have hfront : ∀ component ∈ keyName.getPrefix (-1), component.IsValid :=
    fun component hcomponent ↦ hvalid component (mem_of_mem_getPrefix hcomponent)
  have hadded := hnames.addIdentity ⟨_, hfront, rfl⟩
  refine ⟨hadded.identities, ?_, hadded.certificates⟩
  rintro key (rfl | hkey)
  · exact ⟨keyId, hvalid keyId hmem, rfl⟩
  · exact hnames.keys key hkey

theorem chooseKey (keyName : Name) : HasNames (Event.chooseKey keyName registry) := by
  unfold Event.chooseKey DefaultRegistry.setDefaultKey
  split
  · exact hnames
  · split_ifs
    · exact hnames.of_subset subset_rfl subset_rfl subset_rfl
    · exact hnames

theorem chooseCertificate (certificateName : Name) :
    HasNames (Event.chooseCertificate certificateName registry) := by
  unfold Event.chooseCertificate DefaultRegistry.setDefaultCertificate
  split
  · exact hnames
  · split_ifs
    · exact hnames.of_subset subset_rfl subset_rfl subset_rfl
    · exact hnames

theorem addCertificateTo (hvalid : ∀ component ∈ certificate.name, component.IsValid) :
    HasNames (Event.addCertificateTo certificate registry) := by
  unfold Event.addCertificateTo
  split
  · exact hnames
  · rename_i columns hcolumns
    have hkey := (keyColumns_publicKeyName certificate).trans hcolumns
    have hadded := hnames.addKey
      (fun component hmem ↦ hvalid component (Certificate.mem_name_of_mem_publicKeyName hmem)) hkey
    split_ifs
    · refine ⟨hadded.identities, hadded.keys, ?_⟩
      rintro entry (rfl | hentry)
      · exact ⟨certificate.name, hvalid, rfl⟩
      · exact hadded.certificates entry hentry
    · exact hadded

end

theorem addThen {rest : Registry → Registry}
    (hadded : HasNames (Event.addCertificateTo certificate registry))
    (hrest : HasNames (rest (Event.addCertificateTo certificate registry))) :
    HasNames (Event.addThen certificate rest registry) := by
  unfold Event.addThen
  split_ifs
  · exact hadded
  · exact hrest

theorem onRegistry (hnames : HasNames registry) (hreadable : event.IsReadable) :
    HasNames (event.onRegistry registry) := by
  have hname {name : Name} (hmem : name ∈ event.names) : IsNameUri name.toUri :=
    ⟨name, hreadable name hmem, rfl⟩
  have hcertificate {certificate : Certificate} (hmem : certificate.name ∈ event.names) :
      HasNames (Event.addCertificateTo certificate registry) :=
    hnames.addCertificateTo (hreadable _ hmem)
  cases event with
  | setTpmLocator tpmLocator =>
    simp only [Event.onRegistry, DefaultRegistry.setHolder]
    split_ifs
    · exact hnames.of_subset subset_rfl subset_rfl subset_rfl
    · exact hnames
    · exact hnames.of_subset (Set.empty_subset _) (Set.empty_subset _) (Set.empty_subset _)
  | addIdentity identityName => exact hnames.addIdentity (hname List.mem_cons_self)
  | addKey keyName publicKey =>
    simp only [Event.onRegistry]
    split
    · exact hnames
    · rename_i columns hcolumns
      exact hnames.addKey (hreadable keyName List.mem_cons_self) hcolumns
  | addCertificate certificate =>
    exact hcertificate List.mem_cons_self
  | setDefaultIdentity identityName =>
    exact (hnames.addIdentity (hname List.mem_cons_self)).of_subset subset_rfl subset_rfl subset_rfl
  | setDefaultKeyNameForIdentity keyName => exact hnames.chooseKey keyName
  | setDefaultCertificateNameForKey certificateName => exact hnames.chooseCertificate certificateName
  | addCertificateAsKeyDefault certificate =>
    have hadded := hcertificate List.mem_cons_self
    exact hadded.addThen (hadded.chooseCertificate _)
  | addCertificateAsIdentityDefault certificate =>
    have hadded := hcertificate List.mem_cons_self
    exact hadded.addThen ((hadded.chooseKey _).chooseCertificate _)
  | addCertificateAsSystemDefault certificate =>
    have hvalid : ∀ component ∈ certificate.publicKeyName.getPrefix (-1), component.IsValid :=
      fun component hmem ↦ hreadable _ List.mem_cons_self component
        (Certificate.mem_name_of_mem_publicKeyName (mem_of_mem_getPrefix hmem))
    have hadded := hcertificate List.mem_cons_self
    have hchosen : HasNames ((Event.addCertificateTo certificate registry).setDefaultIdentity
        (certificate.publicKeyName.getPrefix (-1)).toUri) :=
      (hadded.addIdentity ⟨_, hvalid, rfl⟩).of_subset subset_rfl subset_rfl subset_rfl
    exact hadded.addThen ((hchosen.chooseKey _).chooseCertificate _)
  | deleteCertificateInfo certName =>
    simp only [Event.onRegistry]
    split_ifs
    · exact hnames
    · exact hnames.of_subset subset_rfl subset_rfl (Set.sep_subset _ _)
  | deletePublicKeyInfo keyName =>
    simp only [Event.onRegistry]
    split
    · exact hnames
    · exact hnames.of_subset subset_rfl (Set.sep_subset _ _) (Set.sep_subset _ _)
  | deleteIdentityInfo identityName =>
    exact hnames.of_subset (Set.sep_subset _ _) (Set.sep_subset _ _) (Set.sep_subset _ _)
  | refreshDefaultCertificate => exact hnames
  | getDefaultCertificateName => exact hnames

end HasNames

/-! ## Getters -/

variable {identityName : Name}

section Getters

variable {pib : SecPublicInfo}

theorem getDefaultIdentity_eq_ok_iff (hpib : pib.IsIntegral) (hnames : HasNames pib.registry) :
    pib.getDefaultIdentity = .ok name ↔ (∀ component ∈ name, component.IsValid) ∧
      pib.registry.defaultIdentity = some name.toUri := by
  change _ ↔ _ ∧ (pib.identities.marked? ()).map Row.key = _
  unfold getDefaultIdentity
  cases hmarked : pib.identities.marked? () with
  | none => simp
  | some row =>
    have hmem := ((marked?_eq_some_iff hpib.identities).mp hmarked).1
    have huri := hnames.identities row.key ⟨row, hmem, rfl⟩
    dsimp only
    rw [huri.readName_eq_ok_iff, Option.map_some, Option.some.injEq]

theorem getDefaultKeyNameForIdentity_eq_ok_iff (hpib : pib.IsIntegral)
    (hnames : HasNames pib.registry) :
    pib.getDefaultKeyNameForIdentity identityName = .ok keyName ↔
      ∃ keyId : Component, keyId.IsValid ∧ keyName = identityName ++ [keyId] ∧
        pib.registry.defaultKey identityName.toUri = some (String.ofList keyId.toUri) := by
  change _ ↔ ∃ keyId : Component, _ ∧ _ ∧
    (pib.keys.marked? identityName.toUri).map (fun row ↦ row.key.2) = _
  unfold getDefaultKeyNameForIdentity
  cases hmarked : pib.keys.marked? identityName.toUri with
  | none => simp
  | some row =>
    have hmem := ((marked?_eq_some_iff hpib.keys).mp hmarked).1
    have huri := hnames.keys row.key ⟨row, hmem, rfl⟩
    have hread (name : Name) : readName row.key.2 = .ok name ↔ ∃ component : Component,
        component.IsValid ∧ row.key.2 = String.ofList component.toUri ∧ name = [component] :=
      huri.readName_eq_ok_iff
    simp only [Option.map_some, Option.some.injEq]
    constructor
    · intro hok
      cases hresult : readName row.key.2 with
      | error exception =>
        rw [hresult] at hok
        cases hok
      | ok name =>
        rw [hresult] at hok
        obtain ⟨keyId, hvalid, hsame, rfl⟩ := (hread name).mp hresult
        exact ⟨keyId, hvalid, (Except.ok.inj hok).symm, hsame⟩
    · rintro ⟨keyId, hvalid, rfl, hsame⟩
      rw [(hread [keyId]).mpr ⟨keyId, hvalid, hsame, rfl⟩]
      rfl

variable {certName : Name} {Value : Type}

theorem getDefaultCertificateNameForKey_eq_ok_iff (hpib : pib.IsIntegral)
    (hnames : HasNames pib.registry) :
    pib.getDefaultCertificateNameForKey keyName = .ok certName ↔
      (∀ component ∈ certName, component.IsValid) ∧ ∃ columns, keyColumns keyName = some columns ∧
        pib.registry.defaultCertificate columns = some certName.toUri := by
  unfold getDefaultCertificateNameForKey
  cases hcolumns : keyColumns keyName with
  | none => simp
  | some columns =>
    have hregister : pib.registry.defaultCertificate columns =
        (pib.certificates.marked? columns).map Row.key := rfl
    simp only [Option.some.injEq, exists_eq_left', hregister]
    cases hmarked : pib.certificates.marked? columns with
    | none => simp
    | some row =>
      have hmem := ((marked?_eq_some_iff hpib.certificates).mp hmarked).1
      have huri := hnames.certificates (row.owner, row.key) ⟨row, hmem, rfl⟩
      dsimp only
      rw [huri.readName_eq_ok_iff, Option.map_some, Option.some.injEq]

theorem keyColumns_append_singleton (identityName : Name) (keyId : Component) :
    keyColumns (identityName ++ [keyId]) =
      some (identityName.toUri, String.ofList keyId.toUri) := by
  rw [keyColumns, Name.get_append_singleton, Name.getPrefix_append_singleton]
  rfl

theorem getCertificate_eq_ok_iff :
    pib.getCertificate certName = .ok certificate ↔
      ∃ row ∈ pib.certificates.rows, row.key = certName.toUri ∧ row.value = certificate := by
  unfold getCertificate
  cases hrow : pib.certificates.row? certName.toUri with
  | none =>
    have hnone := row?_eq_none_iff.mp hrow
    refine iff_of_false (by simp) ?_
    rintro ⟨row, hmem, hkey, -⟩
    exact hnone row hmem hkey
  | some found =>
    obtain ⟨hmem, hkey⟩ := row?_eq_some_iff.mp hrow
    constructor
    · intro hok
      exact ⟨found, hmem, hkey, Except.ok.inj hok⟩
    · rintro ⟨row, hrow', hkey', rfl⟩
      rw [row_eq_of_key_eq hrow' hmem (hkey'.trans hkey.symm)]

/-- The stored default certificate is at the end of the chain of defaults. -/
theorem storedDefaultCertificate_eq_ok_iff (hpib : pib.IsIntegral)
    (hnames : HasNames pib.registry) :
    pib.storedDefaultCertificate = .ok certificate ↔
      ∃ row ∈ pib.certificates.rows, pib.registry.chain = some (row.owner, row.key) ∧
        row.value = certificate := by
  simp only [storedDefaultCertificate, getDefaultCertificateNameForIdentity, bind_eq_ok_iff,
    getDefaultIdentity_eq_ok_iff hpib hnames, getDefaultKeyNameForIdentity_eq_ok_iff hpib hnames,
    getDefaultCertificateNameForKey_eq_ok_iff hpib hnames, getCertificate_eq_ok_iff,
    DefaultRegistry.chain_eq_some_iff]
  have hclosed := hpib.registry_isClosed
  constructor
  · rintro ⟨identityName, ⟨-, hidentity⟩, certName, ⟨keyName, ⟨keyId, -, rfl, hkey⟩, -, columns,
      hcolumns, hcert⟩, row, hrow, huri, rfl⟩
    rw [keyColumns_append_singleton] at hcolumns
    obtain rfl := Option.some.inj hcolumns
    obtain ⟨found, hfound, hentry⟩ := hclosed.defaultCertificate _ _ hcert
    obtain ⟨howner, hname⟩ := Prod.mk.inj hentry
    obtain rfl := row_eq_of_key_eq hfound hrow (hname.trans huri.symm)
    refine ⟨found, hfound, ?_, rfl⟩
    rw [howner, hname]
    exact ⟨hidentity, hkey, hcert⟩
  · rintro ⟨row, hrow, ⟨hidentity, hkey, hcert⟩, rfl⟩
    obtain ⟨identityName, hvalid, huri⟩ := hnames.identities _ (hclosed.defaultIdentity _ hidentity)
    obtain ⟨keyId, hkeyId, hkeyUri⟩ := hnames.keys _ (hclosed.defaultKey _ _ hkey)
    obtain ⟨certName, hcertName, hcertUri⟩ :=
      hnames.certificates _ (hclosed.defaultCertificate _ _ hcert)
    have hpair : keyColumns (identityName ++ [keyId]) = some row.owner := by
      rw [keyColumns_append_singleton, ← huri, ← hkeyUri]
    refine ⟨identityName, ⟨hvalid, huri ▸ hidentity⟩, certName, ⟨identityName ++ [keyId],
      ⟨keyId, hkeyId, rfl, huri ▸ hkeyUri ▸ hkey⟩, hcertName, row.owner, hpair, hcertUri ▸ hcert⟩,
      row, hrow, hcertUri, rfl⟩

def Refuses {Value : Type} (result : Except Thrown Value) : Prop :=
  ∀ exception, result = .error exception → ∃ what, exception = .publicInfo what

theorem Refuses.of_ok (value : Value) : Refuses (.ok value : Except Thrown Value) := by
  intro exception herror
  cases herror

theorem Refuses.of_publicInfo (what : String) :
    Refuses (.error (.publicInfo what) : Except Thrown Value) := by
  intro exception herror
  exact ⟨what, (Except.error.inj herror).symm⟩

theorem Refuses.bind {Other : Type} {result : Except Thrown Value}
    {next : Value → Except Thrown Other} (hresult : Refuses result)
    (hnext : ∀ value, Refuses (next value)) : Refuses (result >>= next) := by
  intro exception herror
  cases hvalue : result with
  | ok value =>
    rw [hvalue] at herror
    exact hnext value exception herror
  | error thrown =>
    rw [hvalue] at herror
    obtain ⟨what, rfl⟩ := hresult thrown hvalue
    exact ⟨what, (Except.error.inj herror).symm⟩

theorem IsNameUri.refuses (huri : IsNameUri uri) : Refuses (readName uri) := by
  obtain ⟨name, hvalid, rfl⟩ := huri
  rw [readName_toUri hvalid]
  exact .of_ok name

theorem refuses_getDefaultIdentity (hpib : pib.IsIntegral) (hnames : HasNames pib.registry) :
    Refuses pib.getDefaultIdentity := by
  unfold getDefaultIdentity
  split
  · exact .of_publicInfo _
  · rename_i row hrow
    exact (hnames.identities row.key
      ⟨row, ((marked?_eq_some_iff hpib.identities).mp hrow).1, rfl⟩).refuses

theorem refuses_getDefaultKeyNameForIdentity (hpib : pib.IsIntegral)
    (hnames : HasNames pib.registry) (identityName : Name) :
    Refuses (pib.getDefaultKeyNameForIdentity identityName) := by
  unfold getDefaultKeyNameForIdentity
  split
  · exact .of_publicInfo _
  · rename_i row hrow
    obtain ⟨keyId, hvalid, huri⟩ := hnames.keys row.key
      ⟨row, ((marked?_eq_some_iff hpib.keys).mp hrow).1, rfl⟩
    rw [huri, readName_component hvalid]
    exact .of_ok _

theorem refuses_getDefaultCertificateNameForKey (hpib : pib.IsIntegral)
    (hnames : HasNames pib.registry) (keyName : Name) :
    Refuses (pib.getDefaultCertificateNameForKey keyName) := by
  unfold getDefaultCertificateNameForKey
  split
  · exact .of_publicInfo _
  · split
    · exact .of_publicInfo _
    · rename_i row hrow
      exact (hnames.certificates (row.owner, row.key)
        ⟨row, ((marked?_eq_some_iff hpib.certificates).mp hrow).1, rfl⟩).refuses

theorem refuses_getCertificate (certName : Name) : Refuses (pib.getCertificate certName) := by
  unfold getCertificate
  split
  · exact .of_publicInfo _
  · exact .of_ok _

theorem refuses_getPublicKey (keyName : Name) : Refuses (pib.getPublicKey keyName) := by
  unfold getPublicKey
  split
  · exact .of_publicInfo _
  · split
    · exact .of_publicInfo _
    · exact .of_ok _

/-- Without a stored default certificate the search for it ends with a `SecPublicInfo::Error`. -/
theorem refuses_storedDefaultCertificate (hpib : pib.IsIntegral) (hnames : HasNames pib.registry) :
    Refuses pib.storedDefaultCertificate :=
  .bind (refuses_getDefaultIdentity hpib hnames) fun identityName ↦
    .bind (.bind (refuses_getDefaultKeyNameForIdentity hpib hnames identityName) fun keyName ↦
      refuses_getDefaultCertificateNameForKey hpib hnames keyName) fun certName ↦
        refuses_getCertificate certName

end Getters

/-! ## Getters over runs -/

/-- The getters answer what a registry holds. -/
structure Answers (registry : Registry) (pib : SecPublicInfo) : Prop where
  doesIdentityExist : ∀ name, pib.doesIdentityExist name = true ↔ name.toUri ∈ registry.identities
  doesPublicKeyExist : ∀ keyName, pib.doesPublicKeyExist keyName = .ok true ↔
    ∃ columns ∈ registry.keys, keyColumns keyName = some columns
  doesCertificateExist : ∀ name, pib.doesCertificateExist name = true ↔
    ∃ columns, (columns, name.toUri) ∈ registry.certificates
  getDefaultIdentity : ∀ name, pib.getDefaultIdentity = .ok name ↔
    (∀ component ∈ name, component.IsValid) ∧ registry.defaultIdentity = some name.toUri
  getDefaultKeyNameForIdentity : ∀ identityName keyName,
    pib.getDefaultKeyNameForIdentity identityName = .ok keyName ↔
      ∃ keyId : Component, keyId.IsValid ∧ keyName = identityName ++ [keyId] ∧
        registry.defaultKey identityName.toUri = some (String.ofList keyId.toUri)
  getDefaultCertificateNameForKey : ∀ keyName certName,
    pib.getDefaultCertificateNameForKey keyName = .ok certName ↔
      (∀ component ∈ certName, component.IsValid) ∧ ∃ columns, keyColumns keyName = some columns ∧
        registry.defaultCertificate columns = some certName.toUri

theorem IsIntegral.answers {pib : SecPublicInfo} (hpib : pib.IsIntegral)
    (hnames : HasNames pib.registry) : Answers pib.registry pib where
  doesIdentityExist := fun name ↦ isSome_row?_iff
  doesPublicKeyExist := by
    intro keyName
    unfold SecPublicInfo.doesPublicKeyExist
    cases keyColumns keyName with
    | none => simp
    | some columns =>
      have hmem : (pib.keys.row? columns).isSome = true ↔ columns ∈ pib.registry.keys :=
        isSome_row?_iff
      simp [hmem]
  doesCertificateExist := by
    intro name
    refine isSome_row?_iff.trans ⟨?_, ?_⟩
    · rintro ⟨row, hrow, huri⟩
      exact ⟨row.owner, row, hrow, Prod.ext rfl huri⟩
    · rintro ⟨columns, row, hrow, hentry⟩
      exact ⟨row, hrow, congrArg Prod.snd hentry⟩
  getDefaultIdentity := fun _ ↦ getDefaultIdentity_eq_ok_iff hpib hnames
  getDefaultKeyNameForIdentity := fun _ _ ↦ getDefaultKeyNameForIdentity_eq_ok_iff hpib hnames
  getDefaultCertificateNameForKey := fun _ _ ↦
    getDefaultCertificateNameForKey_eq_ok_iff hpib hnames

theorem hasNames_foldl {events : List Event} {registry : Registry} (hnames : HasNames registry)
    (hreadable : ∀ event ∈ events, event.IsReadable) :
    HasNames (events.foldl (fun registry event ↦ event.onRegistry registry) registry) := by
  induction events generalizing registry with
  | nil => exact hnames
  | cons event events ih =>
    exact ih (hnames.onRegistry (hreadable event List.mem_cons_self)) fun later hlater ↦
      hreadable later (List.mem_cons_of_mem event hlater)

/-- Over any run, and whatever throws in it, the getters answer what the registers hold after the same
calls. -/
theorem answers_of_run {start finish : SecPublicInfo} {events : List Event}
    (hstart : start.IsIntegral) (hnames : HasNames start.registry)
    (hreadable : ∀ event ∈ events, event.IsReadable)
    (hrun : Run.run step start events = some finish) :
    Answers (events.foldl (fun registry event ↦ event.onRegistry registry) start.registry) finish := by
  obtain ⟨hfinish, hregistry⟩ := run_spec hstart hrun
  have hanswers := hfinish.answers (by rw [hregistry]; exact hasNames_foldl hnames hreadable)
  rw [hregistry] at hanswers
  exact hanswers

theorem answers_of_run_added :
    (added.getDefaultIdentity = .ok [.generic [0x61]] ∧
      added.doesPublicKeyExist unsignedCertificate.publicKeyName = .ok true ∧
      added.doesCertificateExist unsignedCertificate.name = false) ∧
    Answers (adding.foldl (fun registry event ↦ event.onRegistry registry) initial.registry) added :=
  ⟨by decide +kernel, answers_of_run isIntegral_initial hasNames_initial (by decide) run_adding⟩

/-! ## The member -/

/-- The member is empty, or it is the stored default certificate. -/
def IsCurrent (pib : SecPublicInfo) : Prop :=
  ∀ certificate, pib.defaultCertificate = some certificate →
    pib.storedDefaultCertificate = .ok certificate

/-- Every certificate of some tables is still there, and the member is as it was. -/
structure Extends (start pib : SecPublicInfo) : Prop where
  defaultCertificate : pib.defaultCertificate = start.defaultCertificate
  certificates : ∀ row ∈ start.certificates.rows, ∃ kept ∈ pib.certificates.rows,
    kept.key = row.key ∧ kept.value = row.value

section Member

open Throwing

variable {start pib : SecPublicInfo}

theorem Extends.refl (start : SecPublicInfo) : Extends start start :=
  ⟨rfl, fun row hrow ↦ ⟨row, hrow, rfl, rfl⟩⟩

variable {next : SecPublicInfo} {invariant : SecPublicInfo → Prop}

theorem Extends.of_eq (hextends : Extends start pib)
    (hmember : next.defaultCertificate = pib.defaultCertificate)
    (hcertificates : next.certificates = pib.certificates) : Extends start next :=
  ⟨hmember.trans hextends.defaultCertificate, by
    rw [hcertificates]
    exact hextends.certificates⟩

theorem Extends.addKey (hextends : Extends start pib) (keyName : Name) (publicKey : PublicKeyInfo) :
    Extends start (pib.addKey keyName publicKey) := by
  unfold SecPublicInfo.addKey
  split
  · exact hextends
  · split_ifs
    · exact hextends
    · obtain ⟨-, -, hcertificates, hmember⟩ := pib.addIdentity_spec (keyName.getPrefix (-1))
      exact hextends.of_eq hmember hcertificates

theorem Extends.insertCertificate (hextends : Extends start pib) (columns : String × String)
    (hnew : pib.doesCertificateExist certificate.name = false) :
    Extends start (pib.insertCertificate certificate columns) := by
  have hnone : pib.certificates.row? certificate.name.toUri = none := by
    simpa [doesCertificateExist] using hnew
  unfold SecPublicInfo.insertCertificate
  split_ifs
  · exact hextends
  · refine ⟨hextends.defaultCertificate, fun row hrow ↦ ?_⟩
    obtain ⟨kept, hkept, hsame⟩ := hextends.certificates row hrow
    exact ⟨kept, (mem_insertOrReplace hnone).mpr (.inl hkept), hsame⟩

/-- What the two statements of `addCertificate` keep -/
theorem keeps_addCertificate_of (haddKey : ∀ pib, invariant pib →
      invariant (pib.addKey certificate.publicKeyName certificate.publicKeyInfo))
    (hinsert : ∀ pib columns, invariant pib → keyColumns certificate.publicKeyName = some columns →
      pib.doesCertificateExist certificate.name = false →
      invariant (pib.insertCertificate certificate columns)) :
    Keeps invariant (addCertificate certificate) := by
  unfold addCertificate
  refine Meets.bind _ (meets_certificateNameToPublicKeyName certificate) fun keyName ↦ ?_
  rintro pib ⟨hpib, rfl⟩
  have hadded := haddKey pib hpib
  rw [EStateM.run_bind, EStateM.run_modify]
  dsimp only
  rw [EStateM.run_bind, EStateM.run_get]
  dsimp only
  split_ifs with hexists
  · exact hadded
  · cases hcolumns : keyColumns certificate.publicKeyName with
    | none => exact hadded
    | some columns =>
      cases certificate.fault with
      | none => exact hinsert _ columns hadded hcolumns (by simpa using hexists)
      | some error => exact hadded

/-- What the marks of the keys do not touch -/
theorem keeps_setDefaultKey_of (hmark : ∀ (pib : SecPublicInfo) columns, invariant pib →
      invariant { pib with keys := (pib.keys.unmark columns.1).mark columns.1 columns }) :
    Keeps invariant (setDefaultKeyNameForIdentityInternal keyName) := by
  unfold setDefaultKeyNameForIdentityInternal
  refine Meets.bind _ (Meets.of_reads (fun _ _ hpib _ ↦ hpib) fun _ _ hpib _ ↦ hpib) fun found ↦ ?_
  -- Behind both branches stands the same statement.
  suffices hmarked : Keeps invariant _ from Meets.ite
    (fun _ ↦ Meets.bind _ (Meets.of_throw fun pib hpib ↦ hpib) fun _ ↦ hmarked) fun _ ↦ hmarked
  cases keyColumns keyName with
  | none => exact Meets.of_throw fun pib hpib ↦ hpib
  | some columns => exact Meets.of_modify fun pib hpib ↦ hmark pib columns hpib

/-- What the marks of the certificates do not touch -/
theorem keeps_setDefaultCertificate_of {certificateName : Name}
    (hmark : ∀ (pib : SecPublicInfo) columns, invariant pib →
      invariant { pib with
      certificates := (pib.certificates.unmark columns).mark columns certificateName.toUri }) :
    Keeps invariant (setDefaultCertificateNameForKeyInternal certificateName) := by
  unfold setDefaultCertificateNameForKeyInternal
  refine Meets.bind _ (Meets.of_get fun pib hpib ↦ hpib) fun found ↦ ?_
  suffices hmarked : Keeps invariant _ from Meets.ite
    (fun _ ↦ Meets.bind _ (Meets.of_throw fun pib hpib ↦ hpib) fun _ ↦ hmarked) fun _ ↦ hmarked
  refine Meets.bind _ (Meets.of_reads (fun _ _ hpib _ ↦ hpib) fun _ _ hpib _ ↦ hpib) fun keyName ↦ ?_
  cases keyColumns keyName with
  | none => exact Meets.of_throw fun pib hpib ↦ hpib
  | some columns => exact Meets.of_modify fun pib hpib ↦ hmark pib columns hpib

theorem keeps_addCertificate (certificate : Certificate) :
    Keeps (Extends start) (addCertificate certificate) :=
  keeps_addCertificate_of (fun _ hpib ↦ hpib.addKey _ _)
    fun _ columns hpib _ hnew ↦ hpib.insertCertificate columns hnew

theorem keeps_setDefaultKey (keyName : Name) :
    Keeps (Extends start) (setDefaultKeyNameForIdentityInternal keyName) :=
  keeps_setDefaultKey_of fun _ _ hpib ↦ hpib.of_eq rfl rfl

theorem keeps_setDefaultCertificate (certificateName : Name) :
    Keeps (Extends start) (setDefaultCertificateNameForKeyInternal certificateName) := by
  refine keeps_setDefaultCertificate_of fun pib columns hpib ↦
    ⟨hpib.defaultCertificate, fun row hrow ↦ ?_⟩
  obtain ⟨kept, hkept, hsame⟩ := hpib.certificates row hrow
  exact (exists_mem_mark_unmark_iff fun _ key value ↦ key = row.key ∧ value = row.value).mpr
    ⟨kept, hkept, hsame⟩

theorem run_refresh (hpib : pib.IsIntegral) (hnames : HasNames pib.registry) :
    refreshDefaultCertificate.run pib =
      .ok () { pib with defaultCertificate := pib.storedDefaultCertificate.toOption } := by
  unfold refreshDefaultCertificate
  rw [EStateM.run_bind, EStateM.run_get]
  dsimp only
  cases hstored : pib.storedDefaultCertificate with
  | ok certificate => rfl
  | error exception =>
    obtain ⟨what, rfl⟩ := refuses_storedDefaultCertificate hpib hnames exception hstored
    rfl

/-- The last part of a function that sets a default: the member becomes the stored certificate, and
nothing is thrown. -/
theorem meets_refresh {registry : Registry} (hnames : HasNames registry) :
    Meets (Shows registry) refreshDefaultCertificate (fun _ next ↦ IsCurrent next)
      fun _ _ ↦ False := by
  rintro pib ⟨hpib, rfl⟩
  rw [run_refresh hpib hnames]
  intro cached hcached
  change pib.storedDefaultCertificate = _
  change pib.storedDefaultCertificate.toOption = _ at hcached
  cases hstored : pib.storedDefaultCertificate with
  | ok certificate =>
    rw [hstored] at hcached
    exact congrArg _ (Option.some.inj hcached)
  | error exception =>
    rw [hstored] at hcached
    cases hcached

/-- A call that leaves the member current, or throws and leaves it as it was; nothing is said of an
undefined call. -/
def Refreshes (start : SecPublicInfo) (registry : Registry) (call : Call Unit) : Prop :=
  Meets (fun pib ↦ Shows registry pib ∧ Extends start pib) call (fun _ next ↦ IsCurrent next)
    fun exception next ↦ exception = .undefined ∨ Extends start next

variable {registry : Registry}

theorem Refreshes.last (hnames : HasNames registry) :
    Refreshes start registry refreshDefaultCertificate :=
  (meets_refresh hnames).weaken (fun _ h ↦ h.1) (fun _ _ h ↦ h) fun _ _ h ↦ h.elim

variable {rest : Unit → Call Unit}

/-- A part of the call in front of the rest -/
theorem Refreshes.after {part : Call Unit} {middle : Registry}
    {fail : Thrown → SecPublicInfo → Prop}
    (hpart : Meets (Shows registry) part (fun _ ↦ Shows middle) fail)
    (hkeeps : Keeps (Extends start) part) (hrest : ∀ value, Refreshes start middle (rest value)) :
    Refreshes start registry (part >>= rest) :=
  Meets.bind _ ((hpart.and hkeeps).weaken (fun _ h ↦ h) (fun _ _ h ↦ h) fun _ _ h ↦ .inr h.2) hrest

theorem Refreshes.after_addCertificate
    (hrest : ∀ value, Refreshes start (Event.addCertificateTo certificate registry) (rest value)) :
    Refreshes start registry (addCertificate certificate >>= rest) := by
  have hpart : Meets (Shows registry) (addCertificate certificate)
      (fun _ ↦ Shows (Event.addCertificateTo certificate registry)) fun _ _ ↦ True := by
    cases hcolumns : certificateColumns certificate.name with
    | none =>
      exact (meets_addCertificate_of_none hcolumns).weaken (fun _ h ↦ h.1) (fun _ _ h ↦ h.elim)
        fun _ _ _ ↦ trivial
    | some columns =>
      exact (meets_addCertificate hcolumns).weaken (fun _ h ↦ h) (fun _ _ h ↦ h.2)
        fun _ _ _ ↦ trivial
  exact .after hpart (keeps_addCertificate certificate) hrest

theorem Refreshes.after_setDefaultIdentity
    (hrest : ∀ value, Refreshes start (registry.setDefaultIdentity identityName.toUri) (rest
      value)) :
    Refreshes start registry
      ((modify fun pib ↦ pib.setDefaultIdentityInternal identityName) >>= rest) := by
  have hpart : Meets (Shows registry) (modify fun pib ↦ pib.setDefaultIdentityInternal identityName :
      Call Unit) (fun _ ↦ Shows (registry.setDefaultIdentity identityName.toUri))
      fun _ _ ↦ False := by
    refine Meets.of_modify fun pib hpib ↦ ?_
    rw [← hpib.2]
    exact ⟨hpib.1.setDefaultIdentityInternal identityName,
      hpib.1.registry_setDefaultIdentityInternal identityName⟩
  refine .after hpart (Meets.of_modify fun pib hpib ↦ ?_) hrest
  obtain ⟨-, -, hcertificates, hmember⟩ := pib.addIdentity_spec identityName
  exact hpib.of_eq hmember hcertificates

theorem Refreshes.after_publicKeyName {rest : Name → Call Unit}
    (hrest : Refreshes start registry (rest certificate.publicKeyName)) :
    Refreshes start registry
      ((.reads fun _ ↦ (certificateNameToPublicKeyName certificate.name).mapError Thrown.error) >>=
        rest) := by
  refine Meets.bind _ (meets_certificateNameToPublicKeyName certificate) fun keyName ↦ ?_
  rintro pib ⟨hpib, rfl⟩
  exact hrest pib hpib

/-- Setting the default certificate of a key comes last. -/
theorem Refreshes.chooseCertificate (hnames : HasNames registry) (certificateName : Name) :
    Refreshes start registry (do
      setDefaultCertificateNameForKeyInternal certificateName
      refreshDefaultCertificate) :=
  .after (meets_chooseCertificate certificateName) (keeps_setDefaultCertificate certificateName)
    fun _ ↦ .last (hnames.chooseCertificate certificateName)

/-- The functions that read the default certificate again at their end -/
def Event.refreshes : Event → Bool
  | .setDefaultIdentity _ | .setDefaultKeyNameForIdentity _ | .setDefaultCertificateNameForKey _
  | .addCertificateAsKeyDefault _ | .addCertificateAsIdentityDefault _
  | .addCertificateAsSystemDefault _ | .refreshDefaultCertificate => true
  | _ => false

theorem refreshes_call (hnames : HasNames registry) (hreadable : event.IsReadable)
    (hrefreshes : event.refreshes = true) : Refreshes start registry event.call := by
  have hcertificate {certificate : Certificate} (hmem : certificate.name ∈ event.names) :
      HasNames (Event.addCertificateTo certificate registry) :=
    hnames.addCertificateTo (hreadable _ hmem)
  cases event with
  | setDefaultIdentity identityName =>
    exact .after_setDefaultIdentity fun _ ↦ .last (hnames.onRegistry hreadable)
  | setDefaultKeyNameForIdentity keyName =>
    exact .after (meets_chooseKey keyName) (keeps_setDefaultKey keyName) fun _ ↦
      .last (hnames.chooseKey keyName)
  | setDefaultCertificateNameForKey certificateName => exact .chooseCertificate hnames certificateName
  | addCertificateAsKeyDefault certificate =>
    exact .after_addCertificate fun _ ↦ .chooseCertificate (hcertificate List.mem_cons_self) _
  | addCertificateAsIdentityDefault certificate =>
    refine .after_addCertificate fun _ ↦ .after_publicKeyName ?_
    exact .after (meets_chooseKey _) (keeps_setDefaultKey _) fun _ ↦
      .chooseCertificate ((hcertificate List.mem_cons_self).chooseKey _) _
  | addCertificateAsSystemDefault certificate =>
    refine .after_addCertificate fun _ ↦ .after_publicKeyName (.after_setDefaultIdentity fun _ ↦ ?_)
    have hidentity : (Event.setDefaultIdentity
        (certificate.publicKeyName.getPrefix (-1))).IsReadable := by
      rintro name hname component hcomponent
      obtain rfl := List.mem_singleton.mp hname
      exact hreadable _ List.mem_cons_self component
        (Certificate.mem_name_of_mem_publicKeyName (mem_of_mem_getPrefix hcomponent))
    have hchosen := (hcertificate List.mem_cons_self).onRegistry hidentity
    exact .after (meets_chooseKey _) (keeps_setDefaultKey _) fun _ ↦
      .chooseCertificate (hchosen.chooseKey _) _
  | refreshDefaultCertificate => exact .last hnames
  | setTpmLocator _ | addIdentity _ | addKey _ _ | addCertificate _ | deleteCertificateInfo _
  | deletePublicKeyInfo _ | deleteIdentityInfo _ | getDefaultCertificateName => cases hrefreshes

/-! ## When the member is current -/

/-- The member is as it was, and no URI tells another certificate. -/
structure Agrees (pib next : SecPublicInfo) : Prop where
  defaultCertificate : next.defaultCertificate = pib.defaultCertificate
  certificates : ∀ row ∈ pib.certificates.rows, ∀ later ∈ next.certificates.rows,
    later.key = row.key → later.value = row.value

theorem Extends.agrees (hextends : Extends pib next) : Agrees pib next := by
  refine ⟨hextends.defaultCertificate, fun row hrow later hlater hkey ↦ ?_⟩
  obtain ⟨kept, hkept, hsame, hvalue⟩ := hextends.certificates row hrow
  rw [row_eq_of_key_eq hlater hkept (hkey.trans hsame.symm), hvalue]

theorem Agrees.of_subset (hmember : next.defaultCertificate = pib.defaultCertificate)
    (hsubset : ∀ row ∈ next.certificates.rows, row ∈ pib.certificates.rows) : Agrees pib next := by
  refine ⟨hmember, fun row hrow later hlater hkey ↦ ?_⟩
  rw [row_eq_of_key_eq (hsubset later hlater) hrow hkey]

/-- A function that does not get to reading the default certificate leaves the member as it was. -/
theorem agrees_of_step (hpib : pib.IsIntegral) (hnames : HasNames pib.registry)
    (hreadable : event.IsReadable)
    (hmember : event = .getDefaultCertificateName → pib.defaultCertificate.isSome = true)
    (hnot : ¬ (event.refreshes = true ∧ event.call.run pib = .ok () next))
    (hstep : step pib event = some next) : Agrees pib next := by
  by_cases hrefreshes : event.refreshes = true
  · have hcall : Refreshes pib pib.registry event.call := refreshes_call hnames hreadable hrefreshes
    have hends := hcall pib ⟨⟨hpib, rfl⟩, Extends.refl pib⟩
    unfold step at hstep
    cases hrun : event.call.run pib with
    | ok value final =>
      rw [hrun] at hstep
      obtain rfl := Option.some.inj hstep
      exact absurd ⟨hrefreshes, hrun⟩ hnot
    | error exception final =>
      rw [hrun] at hstep hends
      exact (of_left hends hstep : Extends pib next).agrees
  · have hmodify {change : SecPublicInfo → SecPublicInfo} (hchange : Agrees pib (change pib))
        (hcall : event.call = modify change) : Agrees pib next := by
      rw [step, hcall] at hstep
      exact Option.some.inj hstep ▸ hchange
    cases event with
    | setTpmLocator tpmLocator =>
      refine hmodify ?_ rfl
      unfold SecPublicInfo.setTpmLocator SecPublicInfo.setTpmLocatorInternal
      split
      · exact .of_subset rfl fun row hrow ↦ hrow
      · split_ifs
        · exact .of_subset rfl fun row hrow ↦ hrow
        · exact .of_subset rfl fun row hrow ↦ absurd hrow (by simp)
        · exact .of_subset rfl fun row hrow ↦ hrow
    | addIdentity identityName =>
      obtain ⟨-, -, hcertificates, hsame⟩ := pib.addIdentity_spec identityName
      exact hmodify ((Extends.refl pib).of_eq hsame hcertificates).agrees rfl
    | addKey keyName publicKey =>
      exact hmodify ((Extends.refl pib).addKey keyName publicKey).agrees rfl
    | addCertificate certificate =>
      have hends := keeps_addCertificate certificate pib (Extends.refl pib)
      have hleft : Ends (fun _ ↦ Extends pib) (fun exception final ↦
          exception = .undefined ∨ Extends pib final) ((addCertificate certificate).run pib) := by
        cases hrun : (addCertificate certificate).run pib with
        | ok value final =>
          rw [hrun] at hends
          exact hends
        | error exception final =>
          rw [hrun] at hends
          exact .inr hends
      exact (of_left hleft hstep : Extends pib next).agrees
    | deleteCertificateInfo certName =>
      refine hmodify ?_ rfl
      unfold SecPublicInfo.deleteCertificateInfo
      split_ifs
      · exact .of_subset rfl fun row hrow ↦ hrow
      · exact .of_subset rfl fun row hrow ↦ (mem_deleteWhere.mp hrow).1
    | deletePublicKeyInfo keyName =>
      refine hmodify ?_ rfl
      unfold SecPublicInfo.deletePublicKeyInfo
      split
      · exact .of_subset rfl fun row hrow ↦ hrow
      · exact .of_subset rfl fun row hrow ↦ (mem_deleteWhere.mp hrow).1
    | deleteIdentityInfo identityName =>
      exact hmodify (.of_subset rfl fun row hrow ↦ (mem_deleteWhere.mp hrow).1) rfl
    | getDefaultCertificateName =>
      -- the member is there, so nothing is read again
      obtain ⟨certificate, hsome⟩ := Option.isSome_iff_exists.mp (hmember rfl)
      have hrun : (Event.getDefaultCertificateName).call.run pib = .ok () pib := by
        simp [Event.call, getDefaultCertificateName, hsome]
      rw [step, hrun] at hstep
      obtain rfl := Option.some.inj hstep
      exact (Extends.refl pib).agrees
    | setDefaultIdentity _ | setDefaultKeyNameForIdentity _ | setDefaultCertificateNameForKey _
    | addCertificateAsKeyDefault _ | addCertificateAsIdentityDefault _
    | addCertificateAsSystemDefault _ | refreshDefaultCertificate => exact absurd rfl hrefreshes

/-- Under the same member the stored certificate is the same exactly where the chain of defaults is. -/
theorem Agrees.stored_iff (hagrees : Agrees pib next) (hpib : pib.IsIntegral)
    (hnames : HasNames pib.registry) (hnext : next.IsIntegral) (hnextNames : HasNames next.registry)
    (hstored : pib.storedDefaultCertificate = .ok certificate) :
    next.storedDefaultCertificate = .ok certificate ↔ next.registry.chain = pib.registry.chain := by
  obtain ⟨row, hrow, hchain, rfl⟩ := (storedDefaultCertificate_eq_ok_iff hpib hnames).mp hstored
  rw [storedDefaultCertificate_eq_ok_iff hnext hnextNames, hchain]
  constructor
  · rintro ⟨later, hlater, hlaterChain, hvalue⟩
    obtain ⟨huri, hkey⟩ := hnext.name_of_certificate later hlater
    obtain ⟨huri', hkey'⟩ := hpib.name_of_certificate row hrow
    rw [hvalue] at huri hkey
    have howner : later.owner = row.owner := Option.some.inj (hkey.symm.trans hkey')
    rw [hlaterChain, howner, ← huri, ← huri']
  · intro hlaterChain
    have hdefault := (DefaultRegistry.chain_eq_some_iff.mp hlaterChain).2.2
    obtain ⟨later, hlater, hentry⟩ := hnext.registry_isClosed.defaultCertificate _ _ hdefault
    obtain ⟨howner, huri⟩ := Prod.mk.inj hentry
    refine ⟨later, hlater, ?_, hagrees.certificates row hrow later hlater huri⟩
    rw [hlaterChain, howner, huri]

/-- Asking for the name of the default certificate reads an empty member again. -/
theorem isCurrent_of_get (hpib : pib.IsIntegral) (hnames : HasNames pib.registry)
    (hmember : pib.defaultCertificate = none)
    (hstep : step pib .getDefaultCertificateName = some next) : next.IsCurrent := by
  have hends := meets_refresh hnames pib ⟨hpib, rfl⟩
  cases hrefresh : refreshDefaultCertificate.run pib with
  | error exception final =>
    rw [hrefresh] at hends
    exact hends.elim
  | ok value final =>
    rw [hrefresh] at hends
    simp only [step, Event.call, getDefaultCertificateName, EStateM.run_bind, EStateM.run_get, hmember,
      Option.isNone_none, if_true, hrefresh] at hstep
    cases hfinal : final.defaultCertificate with
    | none =>
      rw [hfinal] at hstep
      exact Option.some.inj hstep ▸ hends
    | some certificate =>
      rw [hfinal] at hstep
      exact Option.some.inj hstep ▸ hends

/-- An event that leaves the member current: the member is empty, or the function reads the default
certificate again, or the chain of defaults stays as it is. -/
def Spares (pib : SecPublicInfo) (event : Event) : Prop :=
  pib.defaultCertificate = none ∨
    (event.refreshes = true ∧ ∃ next, event.call.run pib = .ok () next) ∨
    (event.onRegistry pib.registry).chain = pib.registry.chain

/-- One call leaves a current member current exactly where it spares it. -/
theorem isCurrent_iff_spares (hpib : pib.IsIntegral) (hnames : HasNames pib.registry)
    (hreadable : event.IsReadable) (hcurrent : pib.IsCurrent) (hstep : step pib event = some next) :
    next.IsCurrent ↔ pib.Spares event := by
  obtain ⟨hnext, hregistry⟩ := step_spec hpib hstep
  have hnextNames : HasNames next.registry := by
    rw [hregistry]
    exact hnames.onRegistry hreadable
  have hcall (hrefreshes : event.refreshes = true) : Refreshes pib pib.registry event.call :=
    refreshes_call hnames hreadable hrefreshes
  by_cases hdone : event.refreshes = true ∧ event.call.run pib = .ok () next
  · obtain ⟨hrefreshes, hrun⟩ := hdone
    have hends := hcall hrefreshes pib ⟨⟨hpib, rfl⟩, Extends.refl pib⟩
    rw [hrun] at hends
    exact iff_of_true hends (.inr (.inl ⟨hrefreshes, next, hrun⟩))
  · have hother : ¬ (event.refreshes = true ∧ ∃ final, event.call.run pib = .ok () final) := by
      rintro ⟨hrefreshes, final, hrun⟩
      rw [step, hrun] at hstep
      obtain rfl := Option.some.inj hstep
      exact hdone ⟨hrefreshes, hrun⟩
    cases hmember : pib.defaultCertificate with
    | none =>
      refine iff_of_true ?_ (.inl hmember)
      by_cases hget : event = .getDefaultCertificateName
      · subst hget
        exact isCurrent_of_get hpib hnames hmember hstep
      · have hagrees := agrees_of_step hpib hnames hreadable (fun h ↦ absurd h hget) hdone hstep
        intro certificate hcached
        rw [hagrees.defaultCertificate, hmember] at hcached
        cases hcached
    | some certificate =>
      have hagrees := agrees_of_step hpib hnames hreadable (fun _ ↦ by rw [hmember]; rfl) hdone hstep
      have hstored := hagrees.stored_iff hpib hnames hnext hnextNames (hcurrent certificate hmember)
      have hcached := hagrees.defaultCertificate.trans hmember
      constructor
      · exact fun h ↦ .inr (.inr (hregistry ▸ hstored.mp (h certificate hcached)))
      · rintro (hnone | hrefreshed | hchain)
        · rw [hmember] at hnone
          cases hnone
        · exact absurd hrefreshed hother
        · intro other hsome
          obtain rfl := Option.some.inj (hcached.symm.trans hsome)
          exact hstored.mpr (hregistry ▸ hchain)

end Member

/-! ## The member over runs -/

section MemberRuns

variable {start finish : SecPublicInfo} {events : List Event}

theorem names_of_run {before : List Event} {middle : SecPublicInfo} (hstart : start.IsIntegral)
    (hnames : HasNames start.registry) (hreadable : ∀ event ∈ before, event.IsReadable)
    (hrun : Run.run step start before = some middle) :
    middle.IsIntegral ∧ HasNames middle.registry := by
  obtain ⟨hmiddle, hregistry⟩ := run_spec hstart hrun
  exact ⟨hmiddle, by rw [hregistry]; exact hasNames_foldl hnames hreadable⟩

/-- Over a run that starts with a current member, the member is current at every moment exactly when
every call spares it. -/
theorem isCurrent_throughout_iff (hstart : start.IsIntegral) (hnames : HasNames start.registry)
    (hcurrent : start.IsCurrent) (hreadable : ∀ event ∈ events, event.IsReadable)
    (hrun : Run.run step start events = some finish) :
    (∀ before after middle, events = before ++ after → Run.run step start before = some middle →
      middle.IsCurrent) ↔ Run.Guarded step Spares start events := by
  constructor
  · intro hthroughout
    refine Run.guarded_of_forall_split fun before event after middle hsplit hmiddle ↦ ?_
    have hmiddleReadable : ∀ earlier ∈ before, earlier.IsReadable := fun earlier hmem ↦
      hreadable earlier (hsplit ▸ List.mem_append_left _ hmem)
    have hevent : event.IsReadable := hreadable event (hsplit ▸ by simp)
    obtain ⟨hintegral, hmiddleNames⟩ := names_of_run hstart hnames hmiddleReadable hmiddle
    rw [hsplit, Run.run_append, hmiddle, Option.bind_some] at hrun
    obtain ⟨next, hstep, -⟩ := Run.run_cons_eq_some.mp hrun
    have hbefore : Run.run step start (before ++ [event]) = some next := by
      rw [Run.run_append, hmiddle, Option.bind_some]
      exact Run.run_cons_eq_some.mpr ⟨next, hstep, rfl⟩
    refine (isCurrent_iff_spares hintegral hmiddleNames hevent ?_ hstep).mp ?_
    · exact hthroughout before (event :: after) middle hsplit hmiddle
    · exact hthroughout (before ++ [event]) after next (by simp [hsplit]) hbefore
  · intro hguarded before after middle hsplit hmiddle
    have hbefore : Run.Guarded step (fun pib event ↦ pib.Spares event ∧ event.IsReadable) start
        before := by
      have hwhole := hguarded.and (Run.guarded_of_forall_mem hreadable)
      rw [hsplit] at hwhole
      exact hwhole.of_append
    exact (Run.invariant_of_guarded (fun _ pib ↦ (pib.IsIntegral ∧ HasNames pib.registry) ∧
      pib.IsCurrent) (fun past pib event next hinv hallowed hstep ↦ by
        obtain ⟨⟨hpib, hpibNames⟩, hpibCurrent⟩ := hinv
        have hnext := step_spec hpib hstep
        refine ⟨⟨hnext.1, ?_⟩, ?_⟩
        · rw [hnext.2]
          exact hpibNames.onRegistry hallowed.2
        · exact (isCurrent_iff_spares hpib hpibNames hallowed.2 hpibCurrent hstep).mpr hallowed.1)
      ⟨⟨hstart, hnames⟩, hcurrent⟩ hbefore hmiddle).2

/-- The member is filled, kept by an addition that throws halfway, and then its certificate is
deleted. -/
def deleting : List Event := adding ++ [.deleteCertificateInfo signedCertificate.name]

theorem isCurrent_throughout_deleted :
    added.defaultCertificate = some signedCertificate ∧
    ((∀ before after middle, deleting = before ++ after →
      Run.run step initial before = some middle → middle.IsCurrent) ↔
        Run.Guarded step Spares initial deleting) := by
  have hmember : initial.IsCurrent := by
    intro certificate hcached
    cases hcached
  have hrun : Run.run step initial deleting =
      some (added.deleteCertificateInfo signedCertificate.name) := by
    rw [deleting, Run.run_append, run_adding]
    rfl
  exact ⟨by decide +kernel, isCurrent_throughout_iff isIntegral_initial hasNames_initial hmember
    (by decide) hrun⟩

end MemberRuns

end SecPublicInfo

end NdnCxx
